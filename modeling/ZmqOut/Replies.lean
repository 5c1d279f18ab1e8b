import ZmqOut.Server

/-!
One readyRead: the chunk is parsed on its own, the command it names is executed
and the outcome is written back. One byte tells a status and also starts a
message with its length, so whether a client can read the replies depends on the
lengths of the messages.
-/
namespace ZmqOut.Replies
open ZmqOut.Codec ZmqOut.Variant ZmqOut.Server

def parseMessage (qt : Qt) (messageBytes : List UInt8) : QVariantMap := (qt.fromJson messageBytes).fields

def parseCommand (command_string : StdString) : Int :=
  if command_string = literal "config" then 0
  else if command_string = literal "subscribe" then 1
  else if command_string = literal "start" then 2
  else if command_string = literal "send" then 3
  else if command_string = literal "stop" then 5
  else -1

/-- The switch of onReadyRead, which has no default. -/
def dispatch (value : Int) (msgMap : QVariantMap) : Option Command :=
  match value with
  | 0 => some (.config msgMap)
  | 1 => some (.subscribe msgMap)
  | 2 => some (.start msgMap)
  | 5 => some .stop
  | _ => none

/-- What is written for an outcome; the length of a message is cut to one byte. -/
def reply : Except Exn Unit → List UInt8
  | .ok _ => [0]
  | .error (.int _) => [1]
  | .error (.string e) => UInt8.ofNat e.length :: e

def onReadyRead (qt : Qt) (readedBytes : List UInt8) (answers : Answers) (p : Process) :
    Option (List UInt8 × Process) :=
  let msgMap := parseMessage qt readedBytes
  let command := (msgMap.value "command").toString qt
  match dispatch (parseCommand (toStdString command)) msgMap with
  | none => some (reply (.ok ()),p)
  | some c => (execute qt c answers p).map fun (result,p) => (reply result,p)

/-! ### Reading the replies -/

/-- An outcome as a client tells it: which int was thrown is not written. -/
def told : Except Exn Unit → Except Exn Unit
  | .error (.int _) => .error (.int 0)
  | result => result

/-- The strings thrown are among these. -/
def ThrownFrom (allowed : Set StdString) (result : Except Exn Unit) : Prop :=
  ∀ e, result = .error (.string e) → e ∈ allowed

/-- What a client needs to read the replies: the replies of a connection determine its
    outcomes, the first byte of a message is its length, and no message starts as
    a status does. -/
structure Readable (allowed : Set StdString) : Prop where
  determined : ∀ results results' : List (Except Exn Unit),
    (∀ result ∈ results, ThrownFrom allowed result) → (∀ result ∈ results', ThrownFrom allowed result) →
    results.flatMap reply = results'.flatMap reply → results.map told = results'.map told
  counted : ∀ e ∈ allowed, (reply (.error (.string e))).head?.map UInt8.toNat = some e.length
  apart : ∀ e ∈ allowed, ¬ reply (.ok ()) <+: reply (.error (.string e)) ∧
    ∀ i, ¬ reply (.error (.int i)) <+: reply (.error (.string e))

/-- The length of a message fits into its byte and is none of the two statuses. -/
def Counts (e : StdString) : Prop := 2 ≤ e.length ∧ e.length ≤ 255

/-- How many bytes follow the first byte of a reply, for a client that takes 0 and 1
    for a status. -/
def following (first : UInt8) : Nat := if first.toNat < 2 then 0 else first.toNat

theorem reply_following {allowed : Set StdString} (counts : ∀ e ∈ allowed, Counts e) {result : Except Exn Unit}
    (thrown : ThrownFrom allowed result) :
    ∃ first message, reply result = first :: message ∧ message.length = following first := by
  rcases result with (i | e) | u
  · exact ⟨1,[],rfl,rfl⟩
  · refine ⟨UInt8.ofNat e.length,e,rfl,?_⟩
    obtain ⟨large,small⟩ := counts e (thrown e rfl)
    rw [following,UInt8.toNat_ofNat',Nat.mod_eq_of_lt (by omega),if_neg (by omega)]
  · exact ⟨0,[],rfl,rfl⟩

/-- No reply is a proper prefix of another one. -/
theorem reply_alone {allowed : Set StdString} (counts : ∀ e ∈ allowed, Counts e) {r r' : Except Exn Unit}
    (thrown : ThrownFrom allowed r) (thrown' : ThrownFrom allowed r') (front : reply r <+: reply r') :
    reply r = reply r' := by
  obtain ⟨first,message,starts,size⟩ := reply_following counts thrown
  obtain ⟨first',message',starts',size'⟩ := reply_following counts thrown'
  rw [starts,starts'] at front
  obtain ⟨rfl,inside⟩ := List.cons_prefix_cons.mp front
  rw [starts,starts',inside.eq_of_length (size.trans size'.symm)]

theorem reply_told {allowed : Set StdString} (counts : ∀ e ∈ allowed, Counts e) {r r' : Except Exn Unit}
    (thrown : ThrownFrom allowed r) (thrown' : ThrownFrom allowed r') (same : reply r = reply r') :
    told r = told r' := by
  -- A status has no bytes after the first one and a message has some.
  have longer : ∀ e ∈ allowed, e ≠ [] := by
    rintro e member rfl
    exact absurd (counts [] member).1 (by decide)
  rcases r with (i | e) | u <;> rcases r' with (i' | e') | u'
  · rfl
  · exact absurd (List.cons.inj same).2.symm (longer e' (thrown' e' rfl))
  · exact absurd (List.cons.inj same).1 (by decide)
  · exact absurd (List.cons.inj same).2 (longer e (thrown e rfl))
  · rw [(List.cons.inj same).2]
  · exact absurd (List.cons.inj same).2 (longer e (thrown e rfl))
  · exact absurd (List.cons.inj same).1 (by decide)
  · exact absurd (List.cons.inj same).2.symm (longer e' (thrown' e' rfl))
  · rfl

/-- Replies to outcomes whose strings count are uniquely decodable. -/
theorem replies_determined {allowed : Set StdString} (counts : ∀ e ∈ allowed, Counts e)
    {results results' : List (Except Exn Unit)} (thrown : ∀ r ∈ results, ThrownFrom allowed r)
    (thrown' : ∀ r ∈ results', ThrownFrom allowed r) (same : results.flatMap reply = results'.flatMap reply) :
    results.map told = results'.map told := by
  have free : PrefixFree { word | ∃ r, ThrownFrom allowed r ∧ reply r = word } := by
    rintro v ⟨r,thrown,rfl⟩ w ⟨r',thrown',rfl⟩ front
    exact reply_alone counts thrown thrown' front
  have nonempty : [] ∉ { word | ∃ r, ThrownFrom allowed r ∧ reply r = word } := by
    rintro ⟨r,thrown,empty⟩
    obtain ⟨first,message,starts,-⟩ := reply_following counts thrown
    rw [starts] at empty
    cases empty
  have words : results.map reply = results'.map reply := by
    refine free.uniquelyDecodable nonempty _ _ ?_ ?_ (by simpa [List.flatMap_def] using same)
    · intro w member
      obtain ⟨r,listed,rfl⟩ := List.mem_map.mp member
      exact ⟨r,thrown r listed,rfl⟩
    · intro w member
      obtain ⟨r,listed,rfl⟩ := List.mem_map.mp member
      exact ⟨r,thrown' r listed,rfl⟩
  refine map_determined ?_ words
  exact fun r member r' member' => reply_told counts (thrown r member) (thrown' r' member')

/-- A client can read the replies exactly when every string that is thrown has at
    least 2 and at most 255 bytes. -/
theorem replies_readable_iff (allowed : Set StdString) : Readable allowed ↔ ∀ e ∈ allowed, Counts e := by
  constructor
  · intro readable e member
    have counted := readable.counted e member
    have apart := readable.apart e member
    simp only [reply,List.head?_cons,Option.map_some,Option.some.injEq] at counted
    have small := (UInt8.ofNat e.length).toNat_lt
    have length : e.length ≠ 0 ∧ e.length ≠ 1 := by
      constructor
      · intro zero
        refine apart.1 ?_
        rw [reply,reply,zero]
        exact List.cons_prefix_cons.mpr ⟨rfl,List.nil_prefix⟩
      · intro one
        refine apart.2 0 ?_
        rw [reply,reply,one]
        exact List.cons_prefix_cons.mpr ⟨rfl,List.nil_prefix⟩
    show 2 ≤ e.length ∧ e.length ≤ 255
    omega
  · intro counts
    refine ⟨fun results results' thrown thrown' same => replies_determined counts thrown thrown' same,?_,?_⟩
    · intro e member
      obtain ⟨large,small⟩ := counts e member
      simp only [reply,List.head?_cons,Option.map_some,Option.some.injEq,UInt8.toNat_ofNat']
      omega
    · intro e member
      have thrown : ThrownFrom allowed (.error (.string e)) := by
        rintro e' same
        cases same
        exact member
      have status : ∀ u, ThrownFrom allowed (.ok u) := by
        intro u e' same
        cases same
      have int : ∀ i, ThrownFrom allowed (.error (.int i)) := by
        intro i e' same
        cases same
      refine ⟨fun front => ?_,fun i front => ?_⟩
      · cases reply_told counts (status ()) thrown (reply_alone counts (status ()) thrown front)
      · cases reply_told counts (int i) thrown (reply_alone counts (int i) thrown front)

/-- An exception with the empty string is answered as a success is, one with a single
    byte starts as an int exception does, and one with 256 bytes announces none. -/
theorem replies_ambiguous : reply (.error (.string [])) = reply (.ok ()) ∧
    reply (.error (.int 0)) <+: reply (.error (.string [7])) ∧
    (reply (.error (.string (List.replicate 256 7)))).head? = some 0 ∧ ¬ Readable Set.univ := by
  refine ⟨rfl,by decide,by rw [reply,List.length_replicate]; rfl,?_⟩
  intro readable
  exact (readable.apart [] trivial).1 (by decide)

end ZmqOut.Replies
