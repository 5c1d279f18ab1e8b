import Mathlib.Data.List.Forall2
import ZmqOut.HandlerPointer
import ZmqOut.Truth

/-!
The commands of a connection as TCP delivers them. onReadyRead keeps nothing of a
chunk, so a command is executed by a delivery when it arrives as a chunk of its
own and in no other case.
-/
namespace ZmqOut.Delivery
open ZmqOut.Runs ZmqOut.Variant ZmqOut.Server ZmqOut.HandlerPointer ZmqOut.Replies ZmqOut.Truth

/-- One readyRead with the chunk that readAll returns. -/
def receive (qt : Qt) (p : Process) (chunk : List UInt8 × Answers) : Option Process :=
  (onReadyRead qt chunk.1 chunk.2 p).map Prod.snd

/-- The command that the switch executes for a chunk. -/
def executedFor (qt : Qt) (readedBytes : List UInt8) : Option Command :=
  let msgMap := parseMessage qt readedBytes
  dispatch (parseCommand (toStdString ((msgMap.value "command").toString qt))) msgMap

/-- The space that JSON allows around a document. -/
def isSpace (b : UInt8) : Bool := b = 0x20 || b = 0x09 || b = 0x0a || b = 0x0d

/-- A chunk that executes no command changes nothing. -/
theorem receive_other {qt : Qt} {chunk : List UInt8 × Answers} (other : executedFor qt chunk.1 = none) (p : Process) :
    receive qt p chunk = some p := by
  rw [executedFor] at other
  simp only [receive,onReadyRead,other]
  rfl

/-- A chunk that executes a command has its effect. -/
theorem receive_executed {qt : Qt} {chunk : List UInt8 × Answers} {c : Command} (command : executedFor qt chunk.1 = some c)
    (p : Process) : receive qt p chunk = step qt p (.command c chunk.2) := by
  rw [executedFor] at command
  simp only [receive,onReadyRead,command,Option.map_map]
  rfl

/-- Where the pointers to handlers are valid, every delivery has a defined effect. -/
theorem deliveries_defined {qt : Qt} {p : Process} (handlers : Handlers p) (deliveries : List (List UInt8 × Answers)) :
    ∃ p', run (receive qt) p deliveries = some p' := by
  induction deliveries generalizing p with
  | nil => exact ⟨p,rfl⟩
  | cons chunk rest ih =>
    cases command : executedFor qt chunk.1 with
    | none =>
      rw [run_taken (receive_other command p)]
      exact ih handlers
    | some c =>
      obtain ⟨q,executed⟩ := execute_defined qt c chunk.2 handlers
      have taken : step qt p (.command c chunk.2) = some q := by rw [step,executed]; rfl
      rw [run_taken ((receive_executed command p).trans taken)]
      exact ih (step_handlers handlers taken)

def stopText : List UInt8 := literal "\x7b\"command\":\"stop\"\x7d"

def stopQt : Qt := .table [(stopText,[(key "command",.string (key "stop"))])]

end ZmqOut.Delivery
