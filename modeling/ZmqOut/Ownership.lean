import ZmqOut.Operations

/-!
Where the sockets are kept. Every socket that was created and not closed is in one
place: what stop has not passed of the vector, subscribe's local variable, or a
worker's. No interleaving of the operations puts it in two places or closes it twice.
-/
namespace ZmqOut.Ownership
open ZmqOut.Runs ZmqOut.Variant ZmqOut.Sockets ZmqOut.Steps ZmqOut.Threads ZmqOut.Operations
open ZmqOut.Server hiding step

/-- The worker has asked for its socket and has not closed it. -/
def hasPull : WorkerPc → Bool
  | .socket | .closeHandler | .done => false
  | _ => true

/-- What stop has still to close of the vector. -/
def left (s : State) : List VoidPtr :=
  match s.command with
  | .stopTest i | .stopRead i | .stopClose i _ => s.process.server.subscribers_sockets.drop i
  | .stopClear => []
  | _ => s.process.server.subscribers_sockets

/-- What subscribe has created and not stored. -/
def held : CommandPc → List VoidPtr
  | .subscribeStore _ push => [push]
  | _ => []

def owns (k : Nat) (w : Worker) : Bool := hasPull w.pc && w.pull = .socket k

/-- In how many places the socket is kept. -/
def owners (s : State) (k : Nat) : Nat :=
  (left s).count (.socket k) + (held s.command).count (.socket k) + s.process.workers.countP (owns k)

/-- 1 for a socket that was created. -/
def present (z : Zmq) (k : Nat) : Nat := if k < z.created.length then 1 else 0

/-- Every socket is kept in one place or has been closed once. -/
structure Owned (s : State) : Prop where
  account : ∀ k, owners s k + s.process.zmq.closes.count (.socket k) = present s.process.zmq k
  single : ∀ k, s.process.server.subscribers_sockets.count (.socket k) ≤ 1
  closing : ∀ i push_sock, s.command = .stopClose i push_sock →
    s.process.server.subscribers_sockets[i]? = some push_sock

/-! ### One operation -/

/-- Replacing a worker counts for itself alone. -/
theorem countP_set {α : Type} {f : α → Bool} {l : List α} {k : Nat} {a b : α} (there : l[k]? = some a) :
    (l.set k b).countP f + (if f a then 1 else 0) = l.countP f + if f b then 1 else 0 := by
  obtain ⟨inside,rfl⟩ := List.getElem?_eq_some_iff.mp there
  have counted := List.boole_getElem_le_countP (p := f) inside
  rw [List.countP_set inside]
  omega

theorem countP_set_same {α : Type} {f : α → Bool} {l : List α} {k : Nat} {a b : α} (there : l[k]? = some a)
    (same : f b = f a) : (l.set k b).countP f = l.countP f := by
  have counted := countP_set (f := f) (b := b) there
  rw [same] at counted
  omega

/-- The pointer that zmq_socket returns is a new socket if there is one. -/
theorem count_socket (z : Zmq) (context : VoidPtr) (type : SocketType) (answer : Bool) (k : Nat) :
    [(z.zmq_socket context type answer).1].count (.socket k) + present z k =
      present (z.zmq_socket context type answer).2 k := by
  cases answer with
  | false => simp [Zmq.zmq_socket]
  | true =>
    simp only [present,Zmq.zmq_socket,↓reduceIte,List.count_singleton,List.length_append,List.length_singleton,
      beq_iff_eq,VoidPtr.socket.injEq]
    split <;> split <;> split <;> omega

theorem present_congr {z z' : Zmq} (same : z'.created = z.created) (k : Nat) : present z' k = present z k := by
  rw [present,same,present]

/-- A turn that moves no socket. -/
theorem owned_frame {s s' : State} (owned : Owned s)
    (vector : s'.process.server.subscribers_sockets = s.process.server.subscribers_sockets)
    (lefts : left s' = left s) (helds : held s'.command = held s.command)
    (workers : ∀ k, s'.process.workers.countP (owns k) = s.process.workers.countP (owns k))
    (created : s'.process.zmq.created = s.process.zmq.created) (closes : s'.process.zmq.closes = s.process.zmq.closes)
    (closing : ∀ i push_sock, s'.command = .stopClose i push_sock →
      s'.process.server.subscribers_sockets[i]? = some push_sock) : Owned s' := by
  refine ⟨?_,?_,closing⟩
  · intro k
    rw [owners,lefts,helds,workers,closes,present_congr created]
    exact owned.account k
  · intro k
    rw [vector]
    exact owned.single k

/-- A worker that moves and keeps its socket. -/
theorem owned_move {p p' : Process} {command : CommandPc} {k : Nat} {w w' : Worker} (owned : Owned ⟨p,command⟩)
    (there : p.workers[k]? = some w) (pull : w'.pull = w.pull) (pc : hasPull w'.pc = hasPull w.pc)
    (server : p'.server = p.server) (workers : p'.workers = p.workers) (created : p'.zmq.created = p.zmq.created)
    (closes : p'.zmq.closes = p.zmq.closes) : Owned ⟨setWorker k w' p',command⟩ := by
  refine owned_frame owned ?_ ?_ rfl ?_ created closes ?_
  · simp only [setWorker,server]
  · simp only [left,setWorker,server]
  · intro j
    simp only [setWorker,workers]
    exact countP_set_same there (by rw [owns,owns,pull,pc])
  · simp only [setWorker,server]
    exact owned.closing

theorem works_owned {p p' : Process} {command : CommandPc} {qt : Qt} {k : Nat} {input : Input} {w w' : Worker}
    (owned : Owned ⟨p,command⟩) (there : p.workers[k]? = some w) (works : Works p qt input w w' p') :
    Owned ⟨setWorker k w' p',command⟩ := by
  cases works with
  | socket pc =>
    refine ⟨?_,owned.single,owned.closing⟩
    intro j
    have account := owned.account j
    have socket := count_socket p.zmq w.context .ZMQ_PULL input.socket j
    have workers := countP_set (f := owns j)
      (b := { w with pc := .connect,pull := (p.zmq.zmq_socket w.context .ZMQ_PULL input.socket).1 }) there
    simp only [owners,left,owns,hasPull,pc,setWorker,Zmq.zmq_socket_closes,List.count_singleton,Bool.false_and,
      Bool.true_and,beq_iff_eq,decide_eq_true_eq,Bool.false_eq_true,↓reduceIte] at account socket workers ⊢
    omega
  | closePull pc =>
    refine ⟨?_,owned.single,owned.closing⟩
    intro j
    have account := owned.account j
    have workers := countP_set (f := owns j) (b := { w with pc := .closeHandler }) there
    have same := present_congr (Zmq.zmq_close_created p.zmq w.pull) j
    simp only [owners,left,owns,hasPull,pc,setWorker,Zmq.zmq_close_closes,List.count_append,List.count_singleton,
      Bool.false_and,Bool.true_and,beq_iff_eq,decide_eq_true_eq,Bool.false_eq_true,↓reduceIte] at account workers ⊢
    omega
  | test pc =>
    refine owned_move owned there rfl ?_ rfl rfl rfl rfl
    rw [pc]
    split <;> rfl
  | connect pc | options pc | timeout pc _ | receive pc _ | handle pc | discard pc | skip pc _ | enter pc _ | pass pc _
  | leave pc _ | fetch pc _ | send pc | closeHandler pc =>
    exact owned_move owned there rfl (by rw [pc]; rfl) rfl rfl rfl rfl

theorem step_owned {qt : Qt} {turn : Turn} {s s' : State} (owned : Owned s) (taken : step qt s turn = some s') :
    Owned s' := by
  cases step_operation taken with
  | config =>
    exact owned_frame owned (by simp) (by simp [left]) rfl (by simp) (by simp) (by simp) nofun
  | start =>
    exact owned_frame owned (by simp) (by simp [left]) rfl (by simp) (by simp) (by simp) nofun
  | duplicate | subscribe _ | subscribePush | subscribeBind | startFlag | stop =>
    exact owned_frame owned rfl rfl rfl (fun _ => rfl) rfl rfl nofun
  | startThread =>
    refine owned_frame owned rfl rfl rfl ?_ rfl rfl nofun
    intro k
    simp [owns,hasPull]
  | @subscribeSocket p endpoint answers =>
    refine ⟨?_,owned.single,nofun⟩
    intro k
    have account := owned.account k
    have socket := count_socket p.zmq p.server.push_context .ZMQ_PUSH answers.socket k
    simp only [owners,left,held,Zmq.zmq_socket_closes,List.count_nil] at account ⊢
    omega
  | @subscribeStore p endpoint push answers =>
    have account := owned.account
    simp only [owners,left,held] at account
    refine ⟨?_,?_,nofun⟩
    · intro k
      have here := account k
      simp only [owners,left,held,List.count_append,List.count_nil]
      omega
    · intro k
      have here := account k
      have most : present p.zmq k ≤ 1 := by
        rw [present]
        split <;> decide
      simp only [List.count_append]
      omega
  | @stopPass p i answers inside => exact owned_frame owned rfl rfl rfl (fun _ => rfl) rfl rfl nofun
  | @stopLeave p i answers beyond =>
    refine owned_frame owned rfl ?_ rfl (fun _ => rfl) rfl rfl nofun
    exact (List.drop_eq_nil_of_le (Nat.le_of_not_lt beyond)).symm
  | stopRead found =>
    refine owned_frame owned rfl rfl rfl (fun _ => rfl) rfl rfl ?_
    rintro _ _ ⟨⟩
    exact found
  | @stopClose p i push_sock answers =>
    refine ⟨?_,owned.single,nofun⟩
    intro k
    have account := owned.account k
    have same := present_congr (Zmq.zmq_close_created p.zmq push_sock) k
    obtain ⟨inside,here⟩ := List.getElem?_eq_some_iff.mp (owned.closing i push_sock rfl)
    have split : p.server.subscribers_sockets.drop i = push_sock :: p.server.subscribers_sockets.drop (i + 1) := by
      rw [List.drop_eq_getElem_cons inside,here]
    simp only [owners,left,held,split,List.count_cons,Zmq.zmq_close_closes,List.count_append,List.count_nil]
      at account ⊢
    omega
  | stopClear => exact ⟨owned.account,fun k => Nat.zero_le 1,nofun⟩
  | stopForget => exact owned_frame owned rfl rfl rfl (fun _ => rfl) rfl rfl nofun
  | worker there works => exact works_owned owned there works

theorem construct_owned (m_handler : Nat) (addr : { a : Nat // 0 < a }) : Owned (whole (construct m_handler addr)) :=
  ⟨fun _ => rfl,fun _ => Nat.zero_le 1,nofun⟩

theorem run_owned {qt : Qt} {s s' : State} {turns : List Turn} (owned : Owned s)
    (executed : run (step qt) s turns = some s') : Owned s' :=
  run_preserved (fun _ _ _ owned taken => step_owned owned taken) owned executed

/-- In every interleaving a socket that was created is kept in one place and not closed, or is kept
    nowhere and has been closed once. -/
theorem sockets_owned (qt : Qt) (m_handler : Nat) (addr : { a : Nat // 0 < a }) (turns : List Turn) (s : State)
    (executed : run (step qt) (whole (construct m_handler addr)) turns = some s) (k : Nat)
    (created : k < s.process.zmq.created.length) : owners s k + s.process.zmq.closes.count (.socket k) = 1 := by
  rw [(run_owned (construct_owned m_handler addr) executed).account k,present,if_pos created]

/-- A subscriber, and a stop that has read its socket and not closed it. -/
def untilClose : List Turn :=
  .command (.subscribe [(key "endpoint",.string (key "tcp://*:1"))]) .granted :: List.replicate 4 (.advance .granted) ++
    .command .stop .granted :: List.replicate 2 (.advance .granted)

theorem sockets_owned_until_close : ∃ s,
    run (step (.table [])) (whole (construct 0 ⟨1,Nat.one_pos⟩)) untilClose = some s ∧
    0 < s.process.zmq.created.length ∧ owners s 0 + s.process.zmq.closes.count (.socket 0) = 1 :=
  ⟨_,rfl,by decide,sockets_owned (.table []) 0 ⟨1,Nat.one_pos⟩ untilClose _ rfl 0 (by decide)⟩

end ZmqOut.Ownership
