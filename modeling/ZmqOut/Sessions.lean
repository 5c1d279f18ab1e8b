import ZmqOut.Delivery
import ZmqOut.Lanes

/-!
The managers of the node. Each has a connection of its own; the slots of the server
run in one thread, one after the other, while the workers take their turns in between.
Whatever arrives when, the bytes of a connection are read in their order, every read
is answered by one byte when its command has returned, and but for the sockets the
server does what the commands of all connections do one after the other.
-/
namespace ZmqOut.Sessions
open ZmqOut.Runs ZmqOut.Accounts ZmqOut.Variant ZmqOut.Threads ZmqOut.Replies ZmqOut.Truth ZmqOut.Delivery ZmqOut.Quiescent
open ZmqOut.Server hiding step
open ZmqOut.Threads (State)

/-- A QTcpSocket: what has arrived and is not read, and what was written. -/
structure Connection where
  connected : Bool
  inbound : List UInt8
  outbound : List UInt8

/-- The threads, the connections in the order of their acceptance, and the connection whose
    readyRead is under way with what there is to be answered. -/
structure Node where
  threads : State
  connections : List Connection
  sender : Option (Nat × Except Exn Unit)

inductive Signal where
  | newConnection
  | arrive (i : Nat) (bytes : List UInt8)
  | readyRead (i : Nat) (answers : Answers)
  | disconnected (i : Nat)
  | turn (turn : Turn)

/-- The node after TcpServer::TcpServer. -/
def listening (m_handler : Nat) (addr : { a : Nat // 0 < a }) : Node := ⟨whole (construct m_handler addr),[],none⟩

namespace Node

def write (i : Nat) (bytes : List UInt8) (n : Node) : Node :=
  { n with connections := n.connections.modify i fun c => { c with outbound := c.outbound ++ bytes } }

/-- The end of onReadyRead, when the command has returned. -/
def finish (n : Node) : Node :=
  match n.threads.command,n.sender with
  | .idle,some (i,result) => { n.write i (reply result) with sender := none }
  | _,_ => n

/-- TcpServer::onReadyRead up to the first operation of the command. -/
def onReadyRead (qt : Qt) (i : Nat) (answers : Answers) (n : Node) : Option Node :=
  match n.sender,n.connections[i]? with
  | none,some c =>
    if c.connected then
      let readedBytes := c.inbound
      let n := { n with connections := n.connections.set i { c with inbound := [] } }
      match executedFor qt readedBytes with
      | none => some (n.write i (reply (.ok ())))
      -- Only parseConfig could throw, and config is over before a worker has its turn.
      | some c => (execute qt c answers n.threads.process).bind fun (result,_) =>
        (Threads.step qt n.threads (.command c answers)).map fun threads =>
          finish { n with threads := threads,sender := some (i,result) }
    else none
  | _,_ => none

end Node

/-- The slots are called when none of them is under way; onDisconnected only prints. -/
def step (qt : Qt) (n : Node) : Signal → Option Node
  | .newConnection => if n.sender = none then some { n with connections := n.connections ++ [⟨true,[],[]⟩] } else none
  | .arrive i bytes => n.connections[i]?.bind fun c =>
    if c.connected then some { n with connections := n.connections.set i { c with inbound := c.inbound ++ bytes } }
    else none
  | .readyRead i answers => n.onReadyRead qt i answers
  | .disconnected i => n.connections[i]?.bind fun c =>
    if n.sender = none ∧ c.connected then
      some { n with connections := n.connections.set i { c with connected := false } }
    else none
  | .turn (.command _ _) => none
  | .turn turn => (Threads.step qt n.threads turn).map fun threads => Node.finish { n with threads := threads }

/-- What is read from which connection. -/
def reads (n : Node) : Signal → List (Nat × List UInt8 × Answers)
  | .readyRead i answers => (n.connections[i]?.map fun c => (i,c.inbound,answers)).toList
  | _ => []

/-- The commands that the chunk of a read executes. -/
def commandsRead (qt : Qt) (read : Nat × List UInt8 × Answers) : List Event :=
  (executedFor qt read.2.1).toList.map fun c => .command c read.2.2

/-- The turns of the threads that a signal stands for. -/
def turnsOf (qt : Qt) (n : Node) (signal : Signal) : List Turn :=
  match signal with
  | .turn (.command _ _) => []
  | .turn turn => [turn]
  | _ => (reads n signal).flatMap fun read => (executedFor qt read.2.1).toList.map fun c => .command c read.2.2

/-! ### One signal -/

/-- Every signal by what it does. -/
inductive Handled (qt : Qt) (n : Node) : Signal → Node → Prop where
  | newConnection (idle : n.sender = none) :
      Handled qt n .newConnection { n with connections := n.connections ++ [⟨true,[],[]⟩] }
  | arrive {i : Nat} {bytes : List UInt8} {c : Connection} (there : n.connections[i]? = some c) :
      Handled qt n (.arrive i bytes)
        { n with connections := n.connections.set i { c with inbound := c.inbound ++ bytes } }
  | other {i : Nat} {answers : Answers} {c : Connection} (there : n.connections[i]? = some c) (idle : n.sender = none)
      (other : executedFor qt c.inbound = none) :
      Handled qt n (.readyRead i answers)
        (Node.write i [0] { n with connections := n.connections.set i { c with inbound := [] } })
  | command {i : Nat} {answers : Answers} {c : Connection} {command : Command} {threads : State}
      (there : n.connections[i]? = some c) (idle : n.sender = none) (executed : executedFor qt c.inbound = some command)
      (taken : Threads.step qt n.threads (.command command answers) = some threads) :
      Handled qt n (.readyRead i answers)
        (Node.finish ⟨threads,n.connections.set i { c with inbound := [] },some (i,.ok ())⟩)
  | disconnected {i : Nat} {c : Connection} (there : n.connections[i]? = some c) :
      Handled qt n (.disconnected i) { n with connections := n.connections.set i { c with connected := false } }
  | turn {turn : Turn} {threads : State} (outside : commandOf turn = [])
      (taken : Threads.step qt n.threads turn = some threads) :
      Handled qt n (.turn turn) (Node.finish { n with threads := threads })

theorem step_handled {qt : Qt} {n n' : Node} {signal : Signal} (taken : step qt n signal = some n') :
    Handled qt n signal n' := by
  cases signal with
  | newConnection =>
    rw [step] at taken
    split at taken
    · rename_i idle
      cases taken
      exact .newConnection idle
    · cases taken
  | arrive i bytes =>
    obtain ⟨c,there,arrived⟩ := Option.bind_eq_some_iff.mp taken
    split at arrived
    · cases arrived
      exact .arrive there
    · cases arrived
  | readyRead i answers =>
    rw [step,Node.onReadyRead] at taken
    split at taken
    · rename_i c idle there
      split at taken
      · dsimp only at taken
        split at taken
        · rename_i other
          cases taken
          exact .other there idle other
        · rename_i command executed
          obtain ⟨⟨result,p⟩,called,began⟩ := Option.bind_eq_some_iff.mp taken
          obtain ⟨threads,first,rfl⟩ := Option.map_eq_some_iff.mp began
          rw [execute_ok called]
          exact .command there idle executed first
      · cases taken
    · cases taken
  | disconnected i =>
    obtain ⟨c,there,closed⟩ := Option.bind_eq_some_iff.mp taken
    split at closed
    · cases closed
      exact .disconnected there
    · cases closed
  | turn turn =>
    cases turn with
    | command c answers => cases taken
    | advance answers | worker k input =>
      obtain ⟨threads,advanced,rfl⟩ := Option.map_eq_some_iff.mp taken
      exact .turn rfl advanced

@[simp] theorem write_threads (i : Nat) (bytes : List UInt8) (n : Node) : (n.write i bytes).threads = n.threads := rfl

@[simp] theorem finish_threads (n : Node) : n.finish.threads = n.threads := by
  unfold Node.finish
  split <;> rfl

/-- The threads take the turns that the signals stand for. -/
theorem step_turns {qt : Qt} {n n' : Node} {signal : Signal} (taken : step qt n signal = some n') :
    run (Threads.step qt) n.threads (turnsOf qt n signal) = some n'.threads := by
  cases step_handled taken with
  | newConnection idle => rfl
  | arrive there => rfl
  | other there idle other => simp [turnsOf,reads,there,other]
  | command there idle executed began => simp [turnsOf,reads,there,executed,began]
  | disconnected there => rfl
  | @turn turn threads outside advanced =>
    cases turn with
    | command c answers => cases outside
    | advance answers | worker k input => simp [turnsOf,advanced]

/-- The commands among these turns are those of the reads. -/
theorem turnsOf_commands (qt : Qt) (n : Node) (signal : Signal) :
    (turnsOf qt n signal).flatMap commandOf = (reads n signal).flatMap (commandsRead qt) := by
  cases signal with
  | newConnection | arrive i bytes | disconnected i => rfl
  | readyRead i answers =>
    simp only [turnsOf,List.flatMap_assoc]
    congr 1
    funext read
    rw [commandsRead]
    cases executedFor qt read.2.1 <;> rfl
  | turn turn => cases turn <;> rfl

/-! ### What arrives and what is read -/

/-- What has arrived on connection `i` and is not read. -/
def inbound (i : Nat) (n : Node) : List UInt8 := (n.connections[i]?.map Connection.inbound).getD []

/-- What was written on connection `i`. -/
def outbound (i : Nat) (n : Node) : List UInt8 := (n.connections[i]?.map Connection.outbound).getD []

def arrived (i : Nat) : Signal → List UInt8
  | .arrive j bytes => if j = i then bytes else []
  | _ => []

def chunkOf (i : Nat) (read : Nat × List UInt8 × Answers) : List UInt8 := if read.1 = i then read.2.1 else []

@[simp] theorem inbound_write (i j : Nat) (bytes : List UInt8) (n : Node) : inbound i (n.write j bytes) = inbound i n := by
  simp only [inbound,Node.write,List.getElem?_modify]
  cases n.connections[i]? with
  | none => rfl
  | some c => by_cases here : j = i <;> simp [here]

@[simp] theorem inbound_finish (i : Nat) (n : Node) : inbound i n.finish = inbound i n := by
  unfold Node.finish
  split
  · exact inbound_write ..
  · rfl

/-- On a connection that is accepted nothing has arrived and nothing was written. -/
theorem getD_accepted (connections : List Connection) {f : Connection → List UInt8} (empty : f ⟨true,[],[]⟩ = []) (i : Nat) :
    ((connections ++ [⟨true,[],[]⟩])[i]?.map f).getD [] = (connections[i]?.map f).getD [] := by
  rcases Nat.lt_trichotomy i connections.length with old | new | beyond
  · rw [List.getElem?_append_left old]
  · subst new
    simp [empty]
  · rw [List.getElem?_eq_none (Nat.le_of_lt beyond),List.getElem?_eq_none (by rw [List.length_append]; exact beyond)]

/-- A connection that is replaced by another one. -/
theorem inbound_set {n : Node} {i j : Nat} {c c' : Connection} (there : n.connections[j]? = some c) (threads : State)
    (sender : Option (Nat × Except Exn Unit)) :
    inbound i ⟨threads,n.connections.set j c',sender⟩ = if j = i then c'.inbound else inbound i n := by
  have inside := (List.getElem?_eq_some_iff.mp there).1
  by_cases here : j = i
  · subst here
    simp [inbound,inside]
  · simp [inbound,here]

/-- What is read and what is left is what was left and what arrives. -/
theorem step_inbound {qt : Qt} {n n' : Node} {signal : Signal} (i : Nat) (taken : step qt n signal = some n') :
    (reads n signal).flatMap (chunkOf i) ++ inbound i n' = inbound i n ++ arrived i signal := by
  cases step_handled taken with
  | newConnection idle =>
    simp only [reads,arrived,List.flatMap_nil,List.nil_append,List.append_nil,inbound]
    exact getD_accepted n.connections rfl i
  | @arrive j bytes c there =>
    rw [inbound_set there]
    by_cases here : j = i
    · subst here
      simp [reads,arrived,inbound,there]
    · simp [reads,arrived,here]
  | @other j answers c there idle other =>
    rw [inbound_write,inbound_set there]
    by_cases here : j = i
    · subst here
      simp [reads,arrived,inbound,there,chunkOf]
    · simp [reads,arrived,there,chunkOf,here]
  | @command j answers c command threads there idle executed began =>
    rw [inbound_finish,inbound_set there]
    by_cases here : j = i
    · subst here
      simp [reads,arrived,inbound,there,chunkOf]
    · simp [reads,arrived,there,chunkOf,here]
  | @disconnected j c there =>
    rw [inbound_set there]
    by_cases here : j = i
    · subst here
      simp [reads,arrived,inbound,there]
    · simp [reads,arrived,here]
  | turn outside advanced =>
    rw [inbound_finish]
    simp [reads,arrived,inbound]

/-! ### What is written -/

/-- What is still to be written on connection `i`. -/
def due (i : Nat) (n : Node) : List UInt8 :=
  match n.sender with
  | some (j,result) => if j = i then reply result else []
  | none => []

/-- A command is under way exactly while a slot is, whose answer will be 0. -/
structure Answering (n : Node) : Prop where
  busy : n.sender = none ↔ n.threads.command = .idle
  there : ∀ i result, n.sender = some (i,result) → result = .ok () ∧ i < n.connections.length

theorem due_idle {n : Node} (answering : Answering n) (idle : n.threads.command = .idle) (i : Nat) : due i n = [] := by
  rw [due,answering.busy.mpr idle]

theorem due_busy {n : Node} (answering : Answering n) (busy : n.threads.command ≠ .idle) :
    ∃ j, ∀ i, due i n = if j = i then [0] else [] := by
  cases sender : n.sender with
  | none => exact absurd (answering.busy.mp sender) busy
  | some answer =>
    obtain ⟨j,result⟩ := answer
    obtain ⟨rfl,-⟩ := answering.there j result sender
    refine ⟨j,?_⟩
    intro i
    rw [due,sender]
    rfl

theorem outbound_write (i j : Nat) (bytes : List UInt8) (n : Node) (inside : j < n.connections.length) :
    outbound i (n.write j bytes) = outbound i n ++ if j = i then bytes else [] := by
  simp only [outbound,Node.write,List.getElem?_modify]
  by_cases here : j = i
  · subst here
    simp [List.getElem?_eq_getElem inside]
  · cases n.connections[i]? <;> simp [here]

/-- What is written at the end of the slot was due. -/
theorem outbound_finish {i : Nat} {n : Node} (there : ∀ j result, n.sender = some (j,result) → j < n.connections.length) :
    outbound i n.finish ++ due i n.finish = outbound i n ++ due i n := by
  unfold Node.finish
  split
  · rename_i j result idle sender
    rw [due,due,sender]
    have written := outbound_write i j (reply result) n (there j result sender)
    simp only [List.append_nil]
    exact written
  · rfl

theorem answering_finish {n : Node} (busy : n.sender = none → n.threads.command = .idle)
    (there : ∀ i result, n.sender = some (i,result) → result = .ok () ∧ i < n.connections.length) : Answering n.finish := by
  unfold Node.finish
  split
  · rename_i j result idle sender
    exact ⟨iff_of_true rfl idle,nofun⟩
  · rename_i other
    refine ⟨⟨busy,?_⟩,there⟩
    intro idle
    cases sender : n.sender with
    | none => rfl
    | some answer => exact (other answer.1 answer.2 idle sender).elim

theorem outbound_set {n : Node} {i j : Nat} {c c' : Connection} (there : n.connections[j]? = some c)
    (same : c'.outbound = c.outbound) (threads : State) (sender : Option (Nat × Except Exn Unit)) :
    outbound i ⟨threads,n.connections.set j c',sender⟩ = outbound i n := by
  obtain ⟨inside,rfl⟩ := List.getElem?_eq_some_iff.mp there
  by_cases here : j = i
  · subst here
    simp [outbound,inside,same]
  · simp [outbound,here]

theorem step_answering {qt : Qt} {n n' : Node} {signal : Signal} (answering : Answering n)
    (taken : step qt n signal = some n') : Answering n' := by
  obtain ⟨busy,there⟩ := answering
  cases step_handled taken with
  | newConnection idle =>
    refine ⟨busy,?_⟩
    intro i result sender
    rw [idle] at sender
    cases sender
  | arrive at_i | disconnected at_i =>
    refine ⟨busy,?_⟩
    intro i result sender
    rw [List.length_set]
    exact there i result sender
  | other at_i idle other =>
    refine ⟨busy,?_⟩
    intro i result sender
    rw [idle] at sender
    cases sender
  | command at_i idle executed began =>
    refine answering_finish nofun ?_
    rintro i result ⟨⟩
    rw [List.length_set]
    exact ⟨rfl,(List.getElem?_eq_some_iff.mp at_i).1⟩
  | @turn turn threads outside advanced =>
    refine answering_finish ?_ there
    intro free
    have idle := busy.mp free
    cases turn with
    | command c answers => cases outside
    | advance answers =>
      rw [Threads.step,idle] at advanced
      cases advanced
    | worker k input =>
      obtain ⟨w,found,worked⟩ := Option.bind_eq_some_iff.mp advanced
      obtain ⟨⟨w',p⟩,-,rfl⟩ := Option.map_eq_some_iff.mp worked
      exact idle

/-- Every read is answered by one byte 0, at once or when its command has returned. -/
theorem step_outbound {qt : Qt} {n n' : Node} {signal : Signal} (answering : Answering n)
    (taken : step qt n signal = some n') (i : Nat) :
    outbound i n' ++ due i n' =
      outbound i n ++ due i n ++ List.replicate ((reads n signal).countP fun read => read.1 = i) 0 := by
  obtain ⟨busy,there⟩ := answering
  cases step_handled taken with
  | newConnection idle =>
    simp only [reads,List.countP_nil,List.replicate_zero,List.append_nil,due,idle,outbound]
    exact getD_accepted n.connections rfl i
  | arrive at_i | disconnected at_i =>
    rw [outbound_set at_i]
    · simp [reads,due]
    · rfl
  | @other j answers c at_j idle other =>
    have inside := (List.getElem?_eq_some_iff.mp at_j).1
    rw [outbound_write _ _ _ _ (by rw [List.length_set]; exact inside),outbound_set at_j]
    · simp only [due,Node.write,idle,List.append_nil,reads,at_j,Option.map_some,Option.toList_some,List.countP_singleton]
      by_cases here : j = i <;> simp [here]
    · rfl
  | @command j answers c command threads at_j idle executed began =>
    have inside := (List.getElem?_eq_some_iff.mp at_j).1
    rw [outbound_finish,outbound_set at_j]
    · simp only [due,idle,List.append_nil,reads,at_j,Option.map_some,Option.toList_some,List.countP_singleton]
      by_cases here : j = i <;> simp [here,reply]
    · rfl
    · rintro _ _ ⟨⟩
      rw [List.length_set]
      exact inside
  | turn outside advanced =>
    rw [outbound_finish]
    · simp [reads,outbound,due]
    · intro j result sender
      exact (there j result sender).2

theorem run_answering {qt : Qt} {m_handler : Nat} {addr : { a : Nat // 0 < a }} {signals : List Signal} {n : Node}
    (executed : run (step qt) (listening m_handler addr) signals = some n) :
    Answering n ∧ ∀ i, outbound i n ++ due i n =
      List.replicate ((trace (step qt) reads (listening m_handler addr) signals).countP fun read => read.1 = i) 0 := by
  have advance : ∀ seen n signal n', (Answering n ∧ ∀ i, outbound i n ++ due i n =
        List.replicate (List.countP (fun read => read.1 = i) seen) 0) → True → step qt n signal = some n' →
      Answering n' ∧ ∀ i, outbound i n' ++ due i n' =
        List.replicate (List.countP (fun read => read.1 = i) (seen ++ reads n signal)) 0 := by
    rintro seen n signal n' ⟨answering,written⟩ - taken
    refine ⟨step_answering answering taken,?_⟩
    intro i
    rw [step_outbound answering taken i,written i,List.countP_append,List.replicate_add]
  exact run_history advance [] ⟨⟨iff_of_true rfl rfl,nofun⟩,fun i => rfl⟩ (meets_of_forall (fun _ _ _ => trivial) _) executed

/-- The threads take an interleaving of their own, whose commands are those of the reads. -/
theorem run_turns {qt : Qt} {n n' : Node} {signals : List Signal} (executed : run (step qt) n signals = some n') :
    ∃ turns, run (Threads.step qt) n.threads turns = some n'.threads ∧
      turns.flatMap commandOf = (trace (step qt) reads n signals).flatMap (commandsRead qt) := by
  refine ⟨_,run_performed (fun _ _ _ taken => step_turns taken) executed,?_⟩
  rw [trace_flatMap,trace_flatMap]
  congr 1
  funext n signal
  exact turnsOf_commands qt n signal

/-- Whatever the managers send and however their connections, the slots and the workers come in turns: what
    has arrived on a connection is what was read from it and what is left; every read is answered by
    one byte 0, which is written when its command has returned, so that none is due while no command is
    under way and one is while one is; and the threads take an interleaving of their own whose
    commands are those of the reads, in the order of the reads of all connections. -/
theorem managers_served (qt : Qt) (m_handler : Nat) (addr : { a : Nat // 0 < a }) (signals : List Signal) (n : Node)
    (executed : run (step qt) (listening m_handler addr) signals = some n) :
    (∀ i, (trace (step qt) reads (listening m_handler addr) signals).flatMap (chunkOf i) ++ inbound i n =
      signals.flatMap (arrived i)) ∧
    (∀ i, outbound i n ++ due i n =
      List.replicate ((trace (step qt) reads (listening m_handler addr) signals).countP fun read => read.1 = i) 0) ∧
    (n.threads.command = .idle → ∀ i, due i n = []) ∧
    (n.threads.command ≠ .idle → ∃ j, ∀ i, due i n = if j = i then [0] else []) ∧
    ∃ turns, run (Threads.step qt) (whole (construct m_handler addr)) turns = some n.threads ∧
      turns.flatMap commandOf = (trace (step qt) reads (listening m_handler addr) signals).flatMap (commandsRead qt) := by
  obtain ⟨answering,written⟩ := run_answering executed
  refine ⟨?_,written,due_idle answering,due_busy answering,?_⟩
  · intro i
    have balanced := run_balanced appends_eq (inbound i) (fun _ _ _ _ _ _ => trivial)
      (fun n signal n' _ _ taken => step_inbound i taken) trivial (meets_of_forall (fun _ _ _ => trivial) _) executed
    rw [trace_flatMap]
    rw [trace_actions executed] at balanced
    exact balanced
  · exact run_turns executed

/-- A stop in two pieces on one connection, and a whole one on another. -/
def twoManagers : List Signal :=
  [.newConnection,.newConnection,.arrive 0 (stopText.take 1),.arrive 1 stopText,.readyRead 1 .granted,.arrive 0 (stopText.drop 1),
    .turn (.advance .granted),.turn (.advance .granted),.turn (.advance .granted),.readyRead 0 .granted]

/-- The second stop runs to its end. -/
def bothAnswered : List Signal := twoManagers ++ List.replicate 3 (.turn (.advance .granted))

theorem managers_served_two : ∃ n,
    run (step stopQt) (listening 0 ⟨1,Nat.one_pos⟩) bothAnswered = some n ∧ outbound 0 n = [0] ∧ outbound 1 n = [0] ∧
    (trace (step stopQt) reads (listening 0 ⟨1,Nat.one_pos⟩) bothAnswered).flatMap (chunkOf 0) ++ inbound 0 n = stopText ∧
    ∀ i, due i n = [] := by
  obtain ⟨bytes,-,idle,-⟩ := managers_served stopQt 0 ⟨1,Nat.one_pos⟩ bothAnswered _ rfl
  exact ⟨_,rfl,rfl,rfl,bytes 0,idle rfl⟩

/-! ### One chunk after the other -/

/-- A chunk does what the command in it does alone. -/
theorem run_receive (qt : Qt) (p : Process) (chunks : List (Nat × List UInt8 × Answers)) :
    run (receive qt) p (chunks.map Prod.snd) = run (Server.step qt) p (chunks.flatMap (commandsRead qt)) := by
  induction chunks generalizing p with
  | nil => rfl
  | cons read rest ih =>
    rw [List.map_cons,List.flatMap_cons,run_append,run_cons,commandsRead]
    cases command : executedFor qt read.2.1 with
    | none =>
      rw [receive_other command p]
      exact ih p
    | some c =>
      rw [receive_executed command p]
      simp only [Option.toList_some,List.map_cons,List.map_nil,run_cons,run_nil,Option.bind_fun_some]
      exact congrArg _ (funext ih)

/-- However the slots of the connections, the operations of their commands and the workers come in turns, the
    server is left, the sockets apart, as if onReadyRead ran alone on the chunks that were read, one after the
    other; while a slot is under way, as the rest of its command will leave it. -/
theorem slots_atomic (qt : Qt) (m_handler : Nat) (addr : { a : Nat // 0 < a }) (signals : List Signal) (n : Node)
    (executed : run (step qt) (listening m_handler addr) signals = some n) :
    ∃ p, run (receive qt) (construct m_handler addr)
        ((trace (step qt) reads (listening m_handler addr) signals).map Prod.snd) = some p ∧
      outline p = Quiescent.finish n.threads.command (outline n.threads.process) ∧
      (n.sender = none → outline p = outline n.threads.process) := by
  obtain ⟨turns,taken,commands⟩ := run_turns executed
  obtain ⟨p,alone,settles⟩ := run_settles (construct_settles m_handler addr) taken
  refine ⟨p,?_,settles,?_⟩
  · rw [run_receive,← commands]
    exact alone
  · intro free
    have idle := (run_answering executed).1.busy.mp free
    rw [Settles,idle] at settles
    exact settles

theorem slots_atomic_two : ∃ n p,
    run (step stopQt) (listening 0 ⟨1,Nat.one_pos⟩) twoManagers = some n ∧
    run (receive stopQt) (construct 0 ⟨1,Nat.one_pos⟩) [(stopText,.granted),(stopText,.granted)] = some p ∧
    outline p = Quiescent.finish n.threads.command (outline n.threads.process) ∧ n.threads.command = .stopTest 0 := by
  obtain ⟨p,alone,settles,-⟩ := slots_atomic stopQt 0 ⟨1,Nat.one_pos⟩ twoManagers _ rfl
  exact ⟨_,p,rfl,alone,settles,rfl⟩

end ZmqOut.Sessions
