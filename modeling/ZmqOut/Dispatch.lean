import ZmqOut.Delivery

/-!
Which chunks execute which command. The name is compared as UTF-8, where other texts
could look like it; for the names of the commands none does, so that a chunk executes
a command exactly when it is an object with the name of the command, letter by
letter, under the key command.
-/
namespace ZmqOut.Dispatch
open ZmqOut.DataStream ZmqOut.Variant ZmqOut.Server ZmqOut.Replies ZmqOut.Truth ZmqOut.Delivery

/-! ### Texts whose UTF-8 is plain -/

/-- A byte of ASCII that does not stand for a lone surrogate. -/
def Plain (b : UInt8) : Prop := b.toNat < 0x80 ∧ b ≠ 63

theorem utf8Unit_plain {unit : UInt16} (plain : ∀ b ∈ utf8Unit unit, Plain b) :
    unit.toNat < 0x80 ∧ utf8Unit unit = [UInt8.ofNat unit.toNat] := by
  have range := unit.toNat_lt
  by_cases ascii : unit.toNat < 0x80
  · exact ⟨ascii,by simp only [utf8Unit,ascii,↓reduceIte]⟩
  · exfalso
    by_cases two : unit.toNat < 0x800
    · have first := (plain (UInt8.ofNat (0xc0 + unit.toNat / 64)) (by simp [utf8Unit,ascii,two])).1
      rw [UInt8.toNat_ofNat',Nat.mod_eq_of_lt (by omega)] at first
      omega
    · by_cases lone : (isHighSurrogate unit || isLowSurrogate unit) = true
      · exact (plain 63 (by simp only [utf8Unit,ascii,two,lone,↓reduceIte]; simp)).2 rfl
      · have first := (plain (UInt8.ofNat (0xe0 + unit.toNat / 4096))
          (by simp only [utf8Unit,ascii,two,lone,↓reduceIte]; simp)).1
        rw [UInt8.toNat_ofNat',Nat.mod_eq_of_lt (by omega)] at first
        omega

theorem utf8Pair_not_plain {high low : UInt16} (pair : (isHighSurrogate high && isLowSurrogate low) = true) :
    ¬ ∀ b ∈ utf8Pair high low, Plain b := by
  intro plain
  simp only [isHighSurrogate,isLowSurrogate,Bool.and_eq_true,decide_eq_true_eq,UInt16.lt_iff_toNat_lt] at pair
  obtain ⟨⟨-,upper⟩,-,lower⟩ := pair
  have upper' : high.toNat < 0xdc00 := upper
  have lower' : low.toNat < 0xe000 := lower
  have first := (plain _ List.mem_cons_self).1
  rw [UInt8.toNat_ofNat',Nat.mod_eq_of_lt (by omega)] at first
  omega

theorem toUtf8_plain {s : List UInt16} (plain : ∀ b ∈ toUtf8 s, Plain b) :
    (∀ unit ∈ s, unit.toNat < 0x80) ∧ toUtf8 s = s.map fun unit => UInt8.ofNat unit.toNat := by
  induction s using toUtf8.induct with
  | case1 => simp [toUtf8]
  | case2 unit =>
    obtain ⟨ascii,same⟩ := utf8Unit_plain plain
    exact ⟨by simpa using ascii,same⟩
  | case3 high low rest pair ih =>
    rw [toUtf8,if_pos pair] at plain
    exact absurd (fun b member => plain b (List.mem_append_left _ member)) (utf8Pair_not_plain pair)
  | case4 high low rest single ih =>
    rw [toUtf8,if_neg single] at plain ⊢
    obtain ⟨ascii,same⟩ := utf8Unit_plain fun b member => plain b (List.mem_append_left _ member)
    obtain ⟨asciis,later⟩ := ih fun b member => plain b (List.mem_append_right _ member)
    rw [same,later]
    refine ⟨?_,rfl⟩
    intro unit member
    rcases List.mem_cons.mp member with rfl | old
    · exact ascii
    · exact asciis unit old

/-- A text whose UTF-8 is plain is determined by it. -/
theorem toUtf8_determined {s : List UInt16} {text : StdString} (plain : ∀ b ∈ text, Plain b) (same : toUtf8 s = text) :
    s = text.map fun b => UInt16.ofNat b.toNat := by
  subst same
  obtain ⟨ascii,bytes⟩ := toUtf8_plain plain
  rw [bytes,List.map_map]
  refine (List.map_id s).symm.trans (List.map_congr_left fun unit member => ?_)
  have small := ascii unit member
  show unit = UInt16.ofNat (UInt8.ofNat unit.toNat).toNat
  rw [UInt8.toNat_ofNat',Nat.mod_eq_of_lt (by omega),UInt16.ofNat_toNat]

/-! ### The command of a chunk -/

/-- No number prints as the name of a command. -/
def NumbersApart (qt : Qt) : Prop := ∀ bits, ∀ entry ∈ implemented, toUtf8 (qt.number bits) ≠ literal entry.1

theorem toUtf8_name {s : List UInt16} {entry : String × (QVariantMap → Command)} (listed : entry ∈ implemented) :
    toUtf8 s = literal entry.1 ↔ s = key entry.1 := by
  simp only [implemented,List.mem_cons,List.not_mem_nil,or_false] at listed
  constructor
  · intro same
    have letters : (literal entry.1).all (fun b => b.toNat < 0x80 && b != 63) = true := by
      rcases listed with rfl | rfl | rfl | rfl <;> rfl
    have plain : ∀ b ∈ literal entry.1, Plain b := by
      intro b member
      simpa [Plain] using List.all_eq_true.mp letters b member
    rw [toUtf8_determined plain same]
    rcases listed with rfl | rfl | rfl | rfl <;> decide
  · rintro rfl
    rcases listed with rfl | rfl | rfl | rfl <;> decide

/-- The switch executes what is in the table of the commands. -/
theorem dispatch_iff {text : StdString} {msgMap : QVariantMap} {c : Command} :
    dispatch (parseCommand text) msgMap = some c ↔ ∃ entry ∈ implemented, text = literal entry.1 ∧ c = entry.2 msgMap := by
  constructor
  · intro executed
    unfold parseCommand at executed
    split at executed
    · rename_i config
      exact ⟨("config",.config),by simp [implemented],config,(Option.some.inj executed).symm⟩
    · split at executed
      · rename_i subscribe
        exact ⟨("subscribe",.subscribe),by simp [implemented],subscribe,(Option.some.inj executed).symm⟩
      · split at executed
        · rename_i start
          exact ⟨("start",.start),by simp [implemented],start,(Option.some.inj executed).symm⟩
        · split at executed
          · cases executed
          · split at executed
            · rename_i stop
              exact ⟨("stop",fun _ => .stop),by simp [implemented],stop,(Option.some.inj executed).symm⟩
            · cases executed
  · rintro ⟨entry,listed,rfl,rfl⟩
    simp only [implemented,List.mem_cons,List.not_mem_nil,or_false] at listed
    rcases listed with rfl | rfl | rfl | rfl <;> rfl

theorem literal_ne_nil {entry : String × (QVariantMap → Command)} (listed : entry ∈ implemented) :
    literal entry.1 ≠ [] := by
  simp only [implemented,List.mem_cons,List.not_mem_nil,or_false] at listed
  rcases listed with rfl | rfl | rfl | rfl <;> decide

theorem toString_name {qt : Qt} (apart : NumbersApart qt) {value : QVariant} {entry : String × (QVariantMap → Command)}
    (listed : entry ∈ implemented) : toStdString (value.toString qt) = literal entry.1 ↔ value = .string (key entry.1) := by
  cases value with
  | string s =>
    rw [QVariant.toString,toStdString,Option.getD_some,toUtf8_name listed,QVariant.string.injEq]
  | double bits => simp [QVariant.toString,toStdString,apart bits entry listed]
  | invalid | list items | map entries => simp [QVariant.toString,toStdString,toUtf8,(literal_ne_nil listed).symm]
  | bool b =>
    have text : toStdString (QVariant.toString qt (.bool b)) = toUtf8 (key (if b then "true" else "false")) := rfl
    have other : toUtf8 (key (if b then "true" else "false")) ≠ literal entry.1 := by
      simp only [implemented,List.mem_cons,List.not_mem_nil,or_false] at listed
      cases b <;> rcases listed with rfl | rfl | rfl | rfl <;> decide
    simp [text,other]

/-- A chunk executes a command exactly when it is an object that has the name of the command for
    its value of the key command; the command gets the object. -/
theorem executed_iff (qt : Qt) (apart : NumbersApart qt) (chunk : List UInt8) (c : Command) :
    executedFor qt chunk = some c ↔ ∃ fields, ∃ entry ∈ implemented,
      qt.fromJson chunk = .object fields ∧ fields.value "command" = .string (key entry.1) ∧ c = entry.2 fields := by
  rw [executedFor,dispatch_iff]
  constructor
  · rintro ⟨entry,listed,text,rfl⟩
    have named := (toString_name apart listed).mp text
    cases document : qt.fromJson chunk with
    | object fields =>
      have message : parseMessage qt chunk = fields := by rw [parseMessage,document]; rfl
      rw [message] at named ⊢
      exact ⟨fields,entry,listed,rfl,named,rfl⟩
    | null | array =>
      rw [parseMessage,document] at named
      cases named
  · rintro ⟨fields,entry,listed,document,named,rfl⟩
    have message : parseMessage qt chunk = fields := by rw [parseMessage,document]; rfl
    rw [message]
    exact ⟨entry,listed,(toString_name apart listed).mpr named,rfl⟩

/-- The number 0 prints as no name. -/
theorem executed_iff_stop : executedFor stopQt stopText = some .stop := by
  have apart : NumbersApart stopQt := by
    intro bits entry listed
    have zero : toUtf8 (stopQt.number bits) = literal "0" := rfl
    simp only [implemented,List.mem_cons,List.not_mem_nil,or_false] at listed
    rw [zero]
    rcases listed with rfl | rfl | rfl | rfl <;> decide
  exact (executed_iff stopQt apart stopText .stop).mpr
    ⟨[(key "command",.string (key "stop"))],("stop",fun _ => .stop),by simp [implemented],rfl,rfl,rfl⟩

end ZmqOut.Dispatch
