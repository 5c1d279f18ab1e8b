import ZmqOut.DataStream

/-!
The Qt values that carry a command, and the functions of Qt that the program
calls and whose code is not part of it.
-/
namespace ZmqOut.Variant
open ZmqOut.DataStream

/-- The bytes of a std::string. -/
abbrev StdString := List UInt8

/-- An ASCII literal as a std::string. -/
def literal (text : String) : StdString := text.toList.map fun c => UInt8.ofNat c.toNat
/-- An ASCII literal as UTF-16. -/
def key (text : String) : List UInt16 := text.toList.map fun c => UInt16.ofNat c.toNat

def isHighSurrogate (unit : UInt16) : Bool := 0xd800 ≤ unit && unit < 0xdc00
def isLowSurrogate (unit : UInt16) : Bool := 0xdc00 ≤ unit && unit < 0xe000

/-- UTF-8 of one unit outside a surrogate pair; a lone surrogate becomes '?'. -/
def utf8Unit (unit : UInt16) : StdString :=
  let n := unit.toNat
  if n < 0x80 then [UInt8.ofNat n]
  else if n < 0x800 then [UInt8.ofNat (0xc0 + n / 64),UInt8.ofNat (0x80 + n % 64)]
  else if isHighSurrogate unit || isLowSurrogate unit then [63]
  else [UInt8.ofNat (0xe0 + n / 4096),UInt8.ofNat (0x80 + n / 64 % 64),UInt8.ofNat (0x80 + n % 64)]

def utf8Pair (high low : UInt16) : StdString :=
  let n := 0x10000 + (high.toNat - 0xd800) * 1024 + (low.toNat - 0xdc00)
  [UInt8.ofNat (0xf0 + n / 262144),UInt8.ofNat (0x80 + n / 4096 % 64),UInt8.ofNat (0x80 + n / 64 % 64),
    UInt8.ofNat (0x80 + n % 64)]

def toUtf8 : List UInt16 → StdString
  | [] => []
  | [unit] => utf8Unit unit
  | high :: low :: rest =>
    if isHighSurrogate high && isLowSurrogate low then utf8Pair high low ++ toUtf8 rest
    else utf8Unit high ++ toUtf8 (low :: rest)

/-- QString::toStdString; the null string gives the empty one. -/
def toStdString (s : QString) : StdString := toUtf8 (s.getD [])

/-- The values a JSON document turns into; a number is a double, by its bits. -/
inductive QVariant where
  | invalid
  | bool (b : Bool)
  | double (bits : UInt64)
  | string (s : List UInt16)
  | list (items : List QVariant)
  | map (entries : List (List UInt16 × QVariant))

abbrev QVariantMap := List (List UInt16 × QVariant)

inductive QJsonDocument where
  | null
  | array
  | object (fields : QVariantMap)

/-- The functions of Qt that the program relies on. -/
structure Qt where
  /-- QJsonDocument::fromJson. -/
  fromJson : List UInt8 → QJsonDocument
  /-- QString(QJsonDocument::fromVariant(map).toJson()). -/
  toJson : QVariantMap → List UInt16
  /-- The text QVariant::toString gives for a double. -/
  number : UInt64 → List UInt16

/-- Qt on these documents and on the number 0; every other input is no document. -/
def Qt.table (documents : List (List UInt8 × QVariantMap)) : Qt where
  fromJson bytes := match documents.lookup bytes with
    | some fields => .object fields
    | none => .null
  toJson
    | [(name,.double 0)] => key "\x7b\n    \"" ++ name ++ key "\": 0\n\x7d\n"
    | _ => key "\x7b\n\x7d\n"
  number _ := key "0"

/-- operator[] of a map yields an invalid variant for a key it does not have. -/
def QVariantMap.value (m : QVariantMap) (name : String) : QVariant := (m.lookup (key name)).getD .invalid

def QVariant.toString (qt : Qt) : QVariant → QString
  | .invalid | .list _ | .map _ => none
  | .bool b => some (key (if b then "true" else "false"))
  | .double bits => some (qt.number bits)
  | .string s => some s

def lowerCase (unit : UInt16) : UInt16 := if 65 ≤ unit && unit ≤ 90 then unit + 32 else unit

def QVariant.toBool : QVariant → Bool
  | .invalid | .list _ | .map _ => false
  | .bool b => b
  | .double bits => bits &&& 0x7fffffffffffffff != 0
  | .string s => !(s.isEmpty || s == key "0" || s.map lowerCase == key "false")

/-- QJsonDocument::object: a document that is no object gives the empty one. -/
def QJsonDocument.fields : QJsonDocument → QVariantMap
  | .null | .array => []
  | .object fields => fields

/-- Equality of QString: the null string equals the empty one. -/
def QString.Same (s t : QString) : Prop := s.getD [] = t.getD []

end ZmqOut.Variant
