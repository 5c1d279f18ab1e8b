import ZmqOut.Registry
import ZmqOut.Workers

/-!
What the close signal leaves. closeServer passes the two contexts to zmq_close,
which is for sockets; zmq_ctx_term, which is for contexts, is called nowhere. The
sockets of the registry and the workers are left to a stop that may not have come.
-/
namespace ZmqOut.Teardown
open ZmqOut.Runs ZmqOut.Variant ZmqOut.Sockets ZmqOut.Steps ZmqOut.Registry ZmqOut.Workers
open ZmqOut.Server hiding step

/-- The process, whether m_server is listening, and the contexts that were terminated. -/
structure Node where
  process : Process
  listening : Bool
  terminated : List VoidPtr

namespace Node

/-- The node when the constructor of its server returns. -/
def construct (m_handler : Nat) (socketsAddr : { a : Nat // 0 < a }) : Node :=
  ⟨Server.construct m_handler socketsAddr,true,[]⟩

/-- TcpServer::closeServer. -/
def closeServer (n : Node) : Node :=
  let n := { n with listening := false }
  let n := { n with process.zmq := n.process.zmq.zmq_close n.process.server.pull_context }
  { n with process.zmq := n.process.zmq.zmq_close n.process.server.push_context }

def zmq_ctx_term (context : VoidPtr) (n : Node) : Node := { n with terminated := n.terminated ++ [context] }

end Node

inductive Action where
  | event (e : Event)
  /-- SIGTERM or SIGILL, whose close_handle emits close. -/
  | signal

def step (qt : Qt) (n : Node) : Action → Option Node
  | .event e => (Server.step qt n.process e).map fun p => { n with process := p }
  | .signal => some n.closeServer

/-- Every PUSH socket that was open before is closed exactly once. -/
def ClosesPushes (n n' : Node) : Prop :=
  ∀ s, n.process.zmq.Created .ZMQ_PUSH s → s ∉ n.process.zmq.closes → n'.process.zmq.closes.count s = 1

/-- The next test of a worker in its loop fails. -/
def TellsWorkers (n : Node) : Prop := ∀ k, InLoop n.process k → n.process._stop = true

def TerminatesContexts (n : Node) : Prop :=
  n.process.server.pull_context ∈ n.terminated ∧ n.process.server.push_context ∈ n.terminated

/-- zmq_close was applied to sockets, to none of them twice. -/
def ClosesOpen (n : Node) : Prop :=
  n.process.zmq.closes.Nodup ∧ ∀ s ∈ n.process.zmq.closes, ∃ type, n.process.zmq.Created type s

/-- A teardown from the first node to the second leaves nothing behind. -/
structure Complete (n n' : Node) : Prop where
  pushes : ClosesPushes n n'
  told : TellsWorkers n'
  contexts : TerminatesContexts n'
  closes : ClosesOpen n'

/-- The contexts are those of the constructor, and none of them has been terminated. -/
structure Unterminated (n : Node) : Prop where
  push : n.process.server.push_context = .context 0
  pull : n.process.server.pull_context = .context 1
  terminated : n.terminated = []
  inv : InStep n.process

/-! ### Runs -/

/-- The contexts are set by the constructor alone. -/
theorem step_contexts {qt : Qt} {p p' : Process} {event : Event} (taken : Server.step qt p event = some p') :
    p'.server.push_context = p.server.push_context ∧ p'.server.pull_context = p.server.pull_context := by
  cases step_cases taken with
  | @config m answers h found =>
    rw [ensureHandler_frame]
    exact ⟨rfl,rfl⟩
  | duplicate _ _ => exact ⟨rfl,rfl⟩
  | register _ _ =>
    rw [register_eq]
    exact ⟨rfl,rfl⟩
  | start =>
    rw [Process.start,ensureHandler_frame]
    exact ⟨rfl,rfl⟩
  | stop | openPull _ _ | connect _ _ | options _ _ | test _ _ | timeout _ _ | receive _ _ | handle _ _ _ _
  | closePull _ _ | closeHandler _ _ _ => exact ⟨rfl,rfl⟩

/-- A context is none of the sockets of the registry. -/
theorem close_inStep {p : Process} {k : Nat} (inv : InStep p) :
    InStep { p with zmq := p.zmq.zmq_close (.context k) } := by
  have other : ∀ t, p.zmq.Created .ZMQ_PUSH t → t ≠ .context k := by
    rintro t ⟨j,-,rfl,-,-⟩
    simp
  exact close_other_inStep inv other (by simp)

theorem step_unterminated {qt : Qt} {n n' : Node} {action : Action} (unterminated : Unterminated n)
    (taken : step qt n action = some n') : Unterminated n' := by
  obtain ⟨push,pull,terminated,inv⟩ := unterminated
  cases action with
  | event e =>
    obtain ⟨p,executed,rfl⟩ := Option.map_eq_some_iff.mp taken
    obtain ⟨samePush,samePull⟩ := step_contexts executed
    exact ⟨samePush.trans push,samePull.trans pull,terminated,step_inStep inv executed⟩
  | signal =>
    cases taken
    refine ⟨push,pull,terminated,?_⟩
    rw [Node.closeServer,push,pull]
    exact close_inStep (close_inStep inv)

theorem run_unterminated {qt : Qt} {m_handler : Nat} {addr : { a : Nat // 0 < a }} {actions : List Action} {n : Node}
    (executed : run (step qt) (.construct m_handler addr) actions = some n) : Unterminated n :=
  run_preserved (fun _ _ _ unterminated taken => step_unterminated unterminated taken)
    ⟨rfl,rfl,rfl,construct_inStep m_handler addr⟩ executed

/-! ### What closeServer leaves -/

theorem closeServer_closes {n : Node} (unterminated : Unterminated n) :
    n.closeServer.process.zmq.closes = n.process.zmq.closes ++ [.context 1,.context 0] := by
  simp [Node.closeServer,unterminated.push,unterminated.pull]

/-- The PUSH sockets are closed only if there is none left to close. -/
theorem closesPushes_iff {n : Node} (unterminated : Unterminated n) :
    ClosesPushes n n.closeServer ↔ ∀ s ∈ n.process.server.subscribers_sockets, s = .null := by
  obtain ⟨-,-,-,inv⟩ := id unterminated
  have none : ∀ s, n.process.zmq.Created .ZMQ_PUSH s → s ∉ n.process.zmq.closes →
      n.closeServer.process.zmq.closes.count s = 0 := by
    rintro s ⟨k,entry,rfl,-,-⟩ unclosed
    rw [closeServer_closes unterminated]
    exact List.count_eq_zero.mpr (by simpa using unclosed)
  constructor
  · intro closes s listed
    by_contra filled
    obtain ⟨created,unclosed⟩ := inv.unclosed s listed filled
    have closed := closes s created unclosed
    rw [none s created unclosed] at closed
    cases closed
  · intro null s created unclosed
    rcases inv.complete s created with listed | closed
    · obtain ⟨k,-,filled,-⟩ := created
      rw [null s listed] at filled
      cases filled
    · exact absurd closed unclosed

/-- closeServer leaves the flag and the workers as they are. -/
theorem tellsWorkers_iff (n : Node) :
    TellsWorkers n.closeServer ↔ n.process._stop = true ∨ ∀ k, ¬ InLoop n.process k := by
  constructor
  · intro told
    by_cases looping : ∃ k, InLoop n.process k
    · obtain ⟨k,looping⟩ := looping
      exact .inl (told k looping)
    · exact .inr (not_exists.mp looping)
  · rintro (flag | left) k looping
    · exact flag
    · exact absurd looping (left k)

/-- After no run of commands, worker steps and signals is the teardown complete: it closes the
    sockets of the registry only where there are none, tells the workers only where a stop has,
    terminates no context and closes both of them as if they were sockets. -/
theorem teardown_incomplete (qt : Qt) (m_handler : Nat) (addr : { a : Nat // 0 < a }) (actions : List Action) (n : Node)
    (executed : run (step qt) (.construct m_handler addr) actions = some n) :
    (ClosesPushes n n.closeServer ↔ ∀ s ∈ n.process.server.subscribers_sockets, s = .null) ∧
      (TellsWorkers n.closeServer ↔ n.process._stop = true ∨ ∀ k, ¬ InLoop n.process k) ∧
      n.closeServer.terminated = [] ∧
      n.closeServer.process.server.pull_context ∈ n.closeServer.process.zmq.closes ∧
      n.closeServer.process.server.push_context ∈ n.closeServer.process.zmq.closes ∧
      ¬ ClosesOpen n.closeServer ∧ ¬ Complete n n.closeServer := by
  have unterminated := run_unterminated executed
  obtain ⟨push,pull,terminated,-⟩ := id unterminated
  have context : ¬ ClosesOpen n.closeServer := by
    rintro ⟨-,sockets⟩
    obtain ⟨type,k,-,same,-⟩ := sockets (.context 1) (by rw [closeServer_closes unterminated]; simp)
    cases same
  refine ⟨closesPushes_iff unterminated,tellsWorkers_iff n,terminated,?_,?_,context,fun complete => context complete.closes⟩
  · rw [closeServer_closes unterminated]
    exact List.mem_append_right _ (by rw [show n.closeServer.process.server.pull_context = .context 1 from pull]; simp)
  · rw [closeServer_closes unterminated]
    exact List.mem_append_right _ (by rw [show n.closeServer.process.server.push_context = .context 0 from push]; simp)

/-- One subscriber and one worker. -/
def subscribedWorker : List Action := [.event (subscribeTo "tcp://*:1"),.event (.command (.start []) .granted)]

theorem teardown_incomplete_subscribed : ∃ n,
    run (step (.table [])) (.construct 0 ⟨1,Nat.one_pos⟩) subscribedWorker = some n ∧ ¬ Complete n n.closeServer :=
  ⟨_,rfl,(teardown_incomplete (.table []) 0 ⟨1,Nat.one_pos⟩ subscribedWorker _ rfl).2.2.2.2.2.2⟩

/-- The PUSH socket is still open then, the worker runs on and no context is terminated. -/
theorem signal_leaves_everything : ∃ n,
    run (step (.table [])) (.construct 0 ⟨1,Nat.one_pos⟩) subscribedWorker = some n ∧
    n.process.zmq.Created .ZMQ_PUSH (.socket 0) ∧ n.closeServer.process.zmq.closes = [.context 1,.context 0] ∧
    InLoop n.closeServer.process 0 ∧ n.closeServer.process._stop = false ∧ n.closeServer.terminated = [] ∧
    ¬ Complete n n.closeServer := by
  refine ⟨_,rfl,⟨0,_,rfl,rfl,rfl⟩,rfl,⟨_,rfl,rfl⟩,rfl,rfl,?_⟩
  intro complete
  cases complete.contexts.1

/-! ### A complete teardown -/

/-- What the functions there are would make of the signal: a stop before the contexts are
    passed to zmq_ctx_term. -/
def orderly (n : Node) : Node :=
  let n := { n with listening := false,process := n.process.stop }
  let n := n.zmq_ctx_term n.process.server.pull_context
  n.zmq_ctx_term n.process.server.push_context

/-- It is complete wherever only open sockets were closed before and every socket that was
    asked for was created. -/
theorem orderly_complete {n : Node} (inv : InStep n.process) (before : ClosesOpen n)
    (filled : ∀ s ∈ n.process.server.subscribers_sockets, s ≠ .null) : Complete n (orderly n) := by
  have closes : (orderly n).process.zmq.closes = n.process.zmq.closes ++ n.process.server.subscribers_sockets :=
    stop_closes n.process
  have created : (orderly n).process.zmq.created = n.process.zmq.created := stop_created n.process
  have push : ∀ s ∈ n.process.server.subscribers_sockets, n.process.zmq.Created .ZMQ_PUSH s ∧ s ∉ n.process.zmq.closes :=
    fun s listed => inv.unclosed s listed (filled s listed)
  have single : ∀ s, n.process.server.subscribers_sockets.count s ≤ 1 := by
    intro s
    by_cases listed : s ∈ n.process.server.subscribers_sockets
    · obtain ⟨⟨k,-,rfl,-⟩,-⟩ := push s listed
      exact inv.single k
    · rw [List.count_eq_zero.mpr listed]
      exact Nat.zero_le 1
  refine ⟨?_,fun k _ => rfl,⟨by simp [orderly,Node.zmq_ctx_term],by simp [orderly,Node.zmq_ctx_term]⟩,?_,?_⟩
  · intro s opened unclosed
    have listed := (inv.complete s opened).resolve_right unclosed
    have present := List.count_pos_iff.mpr listed
    have once := single s
    rw [closes,List.count_append,List.count_eq_zero.mpr unclosed]
    omega
  · rw [closes]
    refine List.nodup_append.mpr ⟨before.1,List.nodup_iff_count.mpr single,?_⟩
    rintro s closed s' listed rfl
    exact (push s listed).2 closed
  · intro s member
    simp only [Zmq.created_congr created]
    rw [closes] at member
    rcases List.mem_append.mp member with old | listed
    · exact before.2 s old
    · exact ⟨_,(push s listed).1⟩

end ZmqOut.Teardown
