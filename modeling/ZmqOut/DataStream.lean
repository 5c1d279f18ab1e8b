import ZmqOut.Codec

/-!
The frames that senders push to a node, in the serialization of QDataStream: a
4-byte big-endian byte count before the bytes, the count 0xffffffff for a null
value, UTF-16BE text. A stream keeps its first error and goes on reading, as
Qt's does, so the value after an error is whatever that leaves.
-/
namespace ZmqOut.DataStream
open ZmqOut.Codec

/-- A null QString is not the empty one. -/
abbrev QString := Option (List UInt16)
/-- A null QByteArray is not the empty one. -/
abbrev QByteArray := Option (List UInt8)

inductive Status where
  | Ok
  | ReadPastEnd
  | ReadCorruptData
deriving DecidableEq, Repr

/-- What a QDataStream over a byte array has not read yet, and its status. -/
structure QDataStream where
  unread : List UInt8
  status : Status
deriving DecidableEq, Repr

namespace QDataStream

/-- Only the first error is kept. -/
def setStatus (status : Status) (d : QDataStream) : QDataStream :=
  if d.status = .Ok then { d with status := status } else d

/-- Fewer bytes come back when the device ends first. -/
def readRawData (len : Nat) (d : QDataStream) : List UInt8 × QDataStream :=
  (d.unread.take len,{ d with unread := d.unread.drop len })

def readQuint32 (d : QDataStream) : Nat × QDataStream :=
  let (bytes,d) := d.readRawData 4
  if bytes.length = 4 then (ofBigEndian bytes,d) else (0,d.setStatus .ReadPastEnd)

end QDataStream

def nullMarker : Nat := 0xffffffff

/-- UTF-16BE code units of raw bytes. -/
def ofUtf16 : List UInt8 → List UInt16
  | high :: low :: rest => UInt16.ofNat (ofBigEndian [high,low]) :: ofUtf16 rest
  | _ => []

def toUtf16 (units : List UInt16) : List UInt8 := units.flatMap fun unit => toBigEndian 2 unit.toNat

/-- QDataStream::operator>>(QString &). -/
def readQString (d : QDataStream) : QString × QDataStream :=
  let (bytes,d) := d.readQuint32
  if bytes = nullMarker then (none,d)
  else if bytes % 2 = 1 then (none,d.setStatus .ReadCorruptData)
  else
    let (raw,d) := d.readRawData bytes
    if raw.length = bytes then (some (ofUtf16 raw),d) else (none,d.setStatus .ReadPastEnd)

/-- QDataStream::operator>>(QByteArray &). -/
def readQByteArray (d : QDataStream) : QByteArray × QDataStream :=
  let (len,d) := d.readQuint32
  if len = nullMarker then (none,d)
  else
    let (raw,d) := d.readRawData len
    if raw.length = len then (some raw,d) else (none,d.setStatus .ReadPastEnd)

def writeQuint32 (n : Nat) : List UInt8 := toBigEndian 4 n

/-- QDataStream::writeBytes. -/
def writeBytes (bytes : List UInt8) : List UInt8 := writeQuint32 bytes.length ++ bytes

/-- QDataStream::operator<<(const QString &), and PyQt's writeQString. -/
def writeQString : QString → List UInt8
  | none => writeQuint32 nullMarker
  | some units => writeBytes (toUtf16 units)

/-- QDataStream::operator<<(const QByteArray &). -/
def writeQByteArray : QByteArray → List UInt8
  | none => writeQuint32 nullMarker
  | some bytes => writeBytes bytes

structure data_frame where
  context : QString
  image : QByteArray
deriving DecidableEq, Repr

/-- operator<<(QDataStream &, const data_frame &). -/
def data_frame.write (dataFrame : data_frame) : List UInt8 :=
  writeQString dataFrame.context ++ writeQByteArray dataFrame.image

/-- operator>>(QDataStream &, data_frame &). -/
def data_frame.read (input : QDataStream) : data_frame × QDataStream :=
  let (context,input) := readQString input
  let (image,input) := readQByteArray input
  (⟨context,image⟩,input)

/-- What the mock camera sends: the context with writeQString, then the bytes of
    the image file with writeBytes. -/
def send (context : QString) (image : List UInt8) : List UInt8 := writeQString context ++ writeBytes image

/-- Qt's limit on the bytes of a string. -/
def FitsString (s : QString) : Prop := ∀ units, s = some units → 2 * units.length < 2 ^ 31
/-- Qt's limit on the bytes of an array. -/
def FitsArray (a : QByteArray) : Prop := ∀ bytes, a = some bytes → bytes.length < 2 ^ 31
def Fits (f : data_frame) : Prop := FitsString f.context ∧ FitsArray f.image

/-- The decoder that a reader is while it meets no error. -/
def decoded {α : Type} (read : QDataStream → α × QDataStream) : Decoder UInt8 α := fun bytes =>
  match read ⟨bytes,.Ok⟩ with
  | (a,d) => if d.status = .Ok then some (a,d.unread) else none

theorem decoded_some {α : Type} {read : QDataStream → α × QDataStream} {bytes rest : List UInt8} {a : α} :
    decoded read bytes = some (a,rest) ↔ read ⟨bytes,.Ok⟩ = (a,⟨rest,.Ok⟩) := by
  simp only [decoded]
  rcases read ⟨bytes,.Ok⟩ with ⟨a',unread,status⟩
  by_cases ok : status = .Ok
  · simp [ok]
  · simp [ok]

theorem decoded_none {α : Type} {read : QDataStream → α × QDataStream} {bytes : List UInt8}
    (error : (read ⟨bytes,.Ok⟩).2.status ≠ .Ok) : decoded read bytes = none := by
  simp [decoded,error]

/-! ### Reading back what was written -/

theorem toUtf16_length (units : List UInt16) : (toUtf16 units).length = 2 * units.length := by
  induction units with
  | nil => rfl
  | cons unit rest ih =>
    simp only [toUtf16,List.flatMap_cons,List.length_append,toBigEndian_length,List.length_cons] at ih ⊢
    omega

theorem toBigEndian_two (n : Nat) : toBigEndian 2 n = [UInt8.ofNat (n / 256),UInt8.ofNat n] := rfl

theorem ofUtf16_toUtf16 (units : List UInt16) : ofUtf16 (toUtf16 units) = units := by
  induction units with
  | nil => rfl
  | cons unit rest ih =>
    have back : UInt16.ofNat (ofBigEndian (toBigEndian 2 unit.toNat)) = unit := by
      have small : unit.toNat < 256 ^ 2 := Nat.lt_of_lt_of_eq unit.toNat_lt (by decide)
      rw [ofBigEndian_toBigEndian,Nat.mod_eq_of_lt small,UInt16.ofNat_toNat]
    rw [toBigEndian_two] at back
    change ofUtf16 (toBigEndian 2 unit.toNat ++ toUtf16 rest) = unit :: rest
    rw [toBigEndian_two]
    simp only [List.cons_append,List.nil_append,ofUtf16,back,ih]

theorem toUtf16_ofUtf16 (raw : List UInt8) (even : raw.length % 2 = 0) : toUtf16 (ofUtf16 raw) = raw := by
  induction raw using ofUtf16.induct with
  | case1 high low rest ih =>
    have small : ofBigEndian [high,low] < 2 ^ 16 := by simpa using ofBigEndian_lt [high,low]
    have unit : toBigEndian 2 (UInt16.ofNat (ofBigEndian [high,low])).toNat = [high,low] := by
      rw [UInt16.toNat_ofNat',Nat.mod_eq_of_lt small]
      exact toBigEndian_ofBigEndian [high,low]
    have later := ih (by simp only [List.length_cons] at even; omega)
    simp only [ofUtf16,toUtf16,List.flatMap_cons,unit] at later ⊢
    rw [later]
    rfl
  | case2 raw short =>
    cases raw with
    | nil => rfl
    | cons high rest =>
      cases rest with
      | nil => simp at even
      | cons low rest => exact absurd rfl (short high low rest)

theorem readQuint32_eq (d : QDataStream) : d.readQuint32 =
    if (d.unread.take 4).length = 4 then (ofBigEndian (d.unread.take 4),⟨d.unread.drop 4,d.status⟩)
    else (0,QDataStream.setStatus .ReadPastEnd ⟨d.unread.drop 4,d.status⟩) := rfl

/-- readQString once the count is read. -/
theorem readQString_eq {d d' : QDataStream} {n : Nat} (counted : d.readQuint32 = (n,d')) : readQString d =
    if n = nullMarker then (none,d')
    else if n % 2 = 1 then (none,d'.setStatus .ReadCorruptData)
    else if (d'.unread.take n).length = n then (some (ofUtf16 (d'.unread.take n)),⟨d'.unread.drop n,d'.status⟩)
    else (none,QDataStream.setStatus .ReadPastEnd ⟨d'.unread.drop n,d'.status⟩) := by
  obtain rfl : d.readQuint32.1 = n := by rw [counted]
  obtain rfl : d.readQuint32.2 = d' := by rw [counted]
  rfl

/-- readQByteArray once the count is read. -/
theorem readQByteArray_eq {d d' : QDataStream} {n : Nat} (counted : d.readQuint32 = (n,d')) : readQByteArray d =
    if n = nullMarker then (none,d')
    else if (d'.unread.take n).length = n then (some (d'.unread.take n),⟨d'.unread.drop n,d'.status⟩)
    else (none,QDataStream.setStatus .ReadPastEnd ⟨d'.unread.drop n,d'.status⟩) := by
  obtain rfl : d.readQuint32.1 = n := by rw [counted]
  obtain rfl : d.readQuint32.2 = d' := by rw [counted]
  rfl

theorem readQuint32_write {n : Nat} (small : n < 2 ^ 32) (rest : List UInt8) :
    QDataStream.readQuint32 ⟨writeQuint32 n ++ rest,.Ok⟩ = (n,⟨rest,.Ok⟩) := by
  have width : (writeQuint32 n).length = 4 := toBigEndian_length 4 n
  have value : ofBigEndian (writeQuint32 n) = n := by
    rw [writeQuint32,ofBigEndian_toBigEndian]
    exact Nat.mod_eq_of_lt small
  rw [readQuint32_eq,List.take_left' width,List.drop_left' width,if_pos width,value]

theorem setStatus_not_ok {status : Status} (error : status ≠ .Ok) (d : QDataStream) :
    (d.setStatus status).status ≠ .Ok := by
  simp only [QDataStream.setStatus]
  split
  · exact error
  · assumption

theorem writeQuint32_read {bytes : List UInt8} {n : Nat} {d : QDataStream}
    (read : QDataStream.readQuint32 ⟨bytes,.Ok⟩ = (n,d)) (ok : d.status = .Ok) :
    bytes = writeQuint32 n ++ d.unread ∧ n < 2 ^ 32 := by
  rw [readQuint32_eq] at read
  by_cases width : (bytes.take 4).length = 4
  · rw [if_pos width,Prod.mk.injEq] at read
    obtain ⟨rfl,rfl⟩ := read
    have back := toBigEndian_ofBigEndian (bytes.take 4)
    have small := ofBigEndian_lt (bytes.take 4)
    rw [width] at back small
    exact ⟨by rw [writeQuint32,back,List.take_append_drop],small⟩
  · rw [if_neg width,Prod.mk.injEq] at read
    obtain ⟨-,rfl⟩ := read
    exact absurd ok (setStatus_not_ok (by decide) _)

/-- A counted read without an error leaves exactly the bytes after the count
    and the counted ones. -/
theorem writeBytes_read {bytes rest : List UInt8} {n : Nat} {d : QDataStream}
    (counted : QDataStream.readQuint32 ⟨bytes,.Ok⟩ = (n,d)) (status : d.status = .Ok)
    (width : (d.unread.take n).length = n) (after : d.unread.drop n = rest) :
    bytes = writeBytes (d.unread.take n) ++ rest := by
  obtain ⟨front,-⟩ := writeQuint32_read counted status
  rw [writeBytes,width,← after,List.append_assoc,List.take_append_drop]
  exact front

theorem readQString_inverts : Inverts (decoded readQString) writeQString FitsString := by
  constructor
  · intro s fits rest
    rw [decoded_some]
    cases s with
    | none => rw [writeQString,readQString_eq (readQuint32_write (by decide) rest),if_pos rfl]
    | some units =>
      have bound := fits units rfl
      have width := toUtf16_length units
      have counted := readQuint32_write (n := (toUtf16 units).length) (by omega) (toUtf16 units ++ rest)
      have notNull : (toUtf16 units).length ≠ nullMarker := by rw [nullMarker]; omega
      have notOdd : ¬ (toUtf16 units).length % 2 = 1 := by omega
      rw [writeQString,writeBytes,List.append_assoc,readQString_eq counted,if_neg notNull,if_neg notOdd,
        List.take_left,List.drop_left,if_pos rfl,ofUtf16_toUtf16]
  · intro bytes s rest read
    rw [decoded_some] at read
    rcases counted : QDataStream.readQuint32 ⟨bytes,.Ok⟩ with ⟨n,d⟩
    rw [readQString_eq counted] at read
    by_cases null : n = nullMarker
    · rw [if_pos null,Prod.mk.injEq] at read
      obtain ⟨rfl,rfl⟩ := read
      obtain ⟨front,-⟩ := writeQuint32_read counted rfl
      rw [writeQString,← null]
      exact front
    · rw [if_neg null] at read
      by_cases odd : n % 2 = 1
      · rw [if_pos odd,Prod.mk.injEq] at read
        exact absurd (congrArg QDataStream.status read.2) (setStatus_not_ok (by decide) d)
      · rw [if_neg odd] at read
        by_cases width : (d.unread.take n).length = n
        · rw [if_pos width,Prod.mk.injEq] at read
          obtain ⟨rfl,same⟩ := read
          have whole := writeBytes_read counted (congrArg QDataStream.status same) width
            (congrArg QDataStream.unread same)
          rw [writeQString,toUtf16_ofUtf16 _ (by omega)]
          exact whole
        · rw [if_neg width,Prod.mk.injEq] at read
          exact absurd (congrArg QDataStream.status read.2) (setStatus_not_ok (by decide) _)

theorem readQByteArray_inverts : Inverts (decoded readQByteArray) writeQByteArray FitsArray := by
  constructor
  · intro a fits rest
    rw [decoded_some]
    cases a with
    | none => rw [writeQByteArray,readQByteArray_eq (readQuint32_write (by decide) rest),if_pos rfl]
    | some bytes =>
      have bound := fits bytes rfl
      have counted := readQuint32_write (n := bytes.length) (by omega) (bytes ++ rest)
      have notNull : bytes.length ≠ nullMarker := by rw [nullMarker]; omega
      rw [writeQByteArray,writeBytes,List.append_assoc,readQByteArray_eq counted,if_neg notNull,
        List.take_left,List.drop_left,if_pos rfl]
  · intro bytes a rest read
    rw [decoded_some] at read
    rcases counted : QDataStream.readQuint32 ⟨bytes,.Ok⟩ with ⟨n,d⟩
    rw [readQByteArray_eq counted] at read
    by_cases null : n = nullMarker
    · rw [if_pos null,Prod.mk.injEq] at read
      obtain ⟨rfl,rfl⟩ := read
      obtain ⟨front,-⟩ := writeQuint32_read counted rfl
      rw [writeQByteArray,← null]
      exact front
    · rw [if_neg null] at read
      by_cases width : (d.unread.take n).length = n
      · rw [if_pos width,Prod.mk.injEq] at read
        obtain ⟨rfl,same⟩ := read
        exact writeBytes_read counted (congrArg QDataStream.status same) width (congrArg QDataStream.unread same)
      · rw [if_neg width,Prod.mk.injEq] at read
        exact absurd (congrArg QDataStream.status read.2) (setStatus_not_ok (by decide) _)

/-! ### Frames -/

/-- An error of the stream outlasts the reading of an array. -/
theorem readQByteArray_keeps_error {d : QDataStream} (error : d.status ≠ .Ok) :
    (readQByteArray d).2.status ≠ .Ok := by
  have kept : d.readQuint32.2.status ≠ .Ok := by
    rw [readQuint32_eq]
    split
    · exact error
    · exact setStatus_not_ok (by decide) _
  rw [readQByteArray_eq rfl]
  split
  · exact kept
  · split
    · exact kept
    · exact setStatus_not_ok (by decide) _

/-- Without an error, the two reads of operator>> are one decoder after the other. -/
theorem decoded_read (bytes rest : List UInt8) (f : data_frame) :
    decoded data_frame.read bytes = some (f,rest) ↔
      pair (decoded readQString) (decoded readQByteArray) bytes = some ((f.context,f.image),rest) := by
  rcases first : readQString ⟨bytes,.Ok⟩ with ⟨context,unread,status⟩
  have whole : data_frame.read ⟨bytes,.Ok⟩ =
      (⟨context,(readQByteArray ⟨unread,status⟩).1⟩,(readQByteArray ⟨unread,status⟩).2) := by
    simp only [data_frame.read,first]
  by_cases ok : status = .Ok
  · subst ok
    have front : decoded readQString bytes = some (context,unread) := decoded_some.mpr first
    simp only [pair,front,Option.bind_some]
    by_cases ok' : (readQByteArray ⟨unread,.Ok⟩).2.status = .Ok
    · rcases second : readQByteArray ⟨unread,.Ok⟩ with ⟨image,unread',status'⟩
      rw [second] at ok' whole
      obtain rfl : status' = .Ok := ok'
      have back : decoded readQByteArray unread = some (image,unread') := decoded_some.mpr second
      rw [decoded_some,whole,back]
      cases f
      simp [and_assoc]
    · rw [decoded_none (by rw [whole]; exact ok'),decoded_none ok']
      simp
  · have late := readQByteArray_keeps_error (d := ⟨unread,status⟩) ok
    have failed : decoded readQString bytes = none := decoded_none (by rw [first]; exact ok)
    rw [decoded_none (by rw [whole]; exact late),pair,failed]
    simp

theorem read_inverts : Inverts (decoded data_frame.read) data_frame.write Fits := by
  have both := pair_inverts readQString_inverts readQByteArray_inverts
  constructor
  · intro f fits rest
    exact (decoded_read _ rest f).mpr (both.complete (f.context,f.image) fits rest)
  · intro bytes f rest read
    exact both.sound bytes (f.context,f.image) rest ((decoded_read bytes rest f).mp read)

theorem write_nonempty (f : data_frame) : f.write ≠ [] := by
  rcases f with ⟨_ | units,image⟩ <;> simp [data_frame.write,writeQString,writeBytes,writeQuint32,toBigEndian]

/-- The two encoders agree on every frame that has an image. -/
theorem send_eq_write (context : QString) (image : List UInt8) :
    send context image = data_frame.write ⟨context,some image⟩ := rfl

/-- Frames survive the wire: reading what operator<< wrote gives the frame back
    and leaves what follows, concatenated frames decode to their list, a frame
    that was decoded without an error encodes to the bytes it was read from, and
    what the senders write decodes to their context and image. -/
theorem frames_round_trip :
    (∀ f, Fits f → ∀ rest, data_frame.read ⟨f.write ++ rest,.Ok⟩ = (f,⟨rest,.Ok⟩)) ∧
    (∀ fs : List data_frame, (∀ f ∈ fs, Fits f) →
      decodeAll (decoded data_frame.read) fs.length (fs.flatMap data_frame.write) = some fs) ∧
    (∀ bytes f d, data_frame.read ⟨bytes,.Ok⟩ = (f,d) → d.status = .Ok → bytes = f.write ++ d.unread) ∧
    (∀ context image, FitsString context → image.length < 2 ^ 31 → ∀ rest,
      data_frame.read ⟨send context image ++ rest,.Ok⟩ = (⟨context,some image⟩,⟨rest,.Ok⟩)) := by
  have back : ∀ f, Fits f → ∀ rest, data_frame.read ⟨f.write ++ rest,.Ok⟩ = (f,⟨rest,.Ok⟩) :=
    fun f fits rest => decoded_some.mp (read_inverts.complete f fits rest)
  refine ⟨back,?_,?_,?_⟩
  · intro fs fits
    exact decodeAll_flatMap read_inverts write_nonempty fs fits fs.length (Nat.le_refl _)
  · rintro bytes f ⟨unread,status⟩ read ok
    obtain rfl : status = .Ok := ok
    exact read_inverts.sound bytes f unread (decoded_some.mpr read)
  · intro context image fitsContext fitsImage rest
    rw [send_eq_write]
    refine back ⟨context,some image⟩ ⟨fitsContext,?_⟩ rest
    rintro bytes ⟨⟩
    exact fitsImage

end ZmqOut.DataStream
