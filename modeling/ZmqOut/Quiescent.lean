import ZmqOut.Ownership
import ZmqOut.Races
import ZmqOut.Registry

/-!
The commands one operation at a time, with the workers in between. Whenever no
command is under way the registry is what it is after atomic commands: its two
vectors are in step again, and but for the sockets, which depend on the answers of
ZeroMQ, the process is as the same commands leave it when each of them runs alone.
-/
namespace ZmqOut.Quiescent
open ZmqOut.Runs ZmqOut.Variant ZmqOut.Sockets ZmqOut.Steps ZmqOut.Threads ZmqOut.Turns ZmqOut.Operations ZmqOut.Ownership
open ZmqOut.Server hiding step

/-! ### The two vectors -/

/-- The lengths of the endpoints and of the sockets. -/
def Lengths : CommandPc → Nat → Nat → Prop
  | .subscribeSocket _,m,n | .subscribeStore _ _,m,n => m = n + 1
  | .stopForget,_,n => n = 0
  | _,m,n => m = n

/-- The endpoint of the subscribe that is under way is new or the newest. -/
def Newest (subscribers : List StdString) : CommandPc → Prop
  | .subscribePush endpoint => endpoint ∉ subscribers
  | .subscribeSocket endpoint | .subscribeStore endpoint _ | .subscribeBind endpoint _ =>
    subscribers.getLast? = some endpoint
  | _ => True

/-- The pointer was passed to zmq_bind with this endpoint. -/
def Tried (z : Zmq) (sock : VoidPtr) (endpoint : StdString) : Prop :=
  ∃ attachment ∈ z.binds, attachment.socket = sock ∧ attachment.endpoint = c_str endpoint

structure Listed (s : State) : Prop where
  distinct : s.process.server.subscribers.Nodup
  lengths : Lengths s.command s.process.server.subscribers.length s.process.server.subscribers_sockets.length
  newest : Newest s.process.server.subscribers s.command
  tried : ∀ (i : Nat) (endpoint : StdString) (sock : VoidPtr), s.process.server.subscribers[i]? = some endpoint →
    s.process.server.subscribers_sockets[i]? = some sock →
      Tried s.process.zmq sock endpoint ∨ s.command = .subscribeBind endpoint sock

theorem tried_bind {z : Zmq} {sock bound : VoidPtr} {endpoint endpoint' : StdString} {answer : Bool}
    (tried : Tried z sock endpoint) : Tried (z.zmq_bind bound endpoint' answer) sock endpoint := by
  obtain ⟨attachment,member,made⟩ := tried
  exact ⟨attachment,List.mem_append_left _ member,made⟩

/-- A turn that leaves the vectors alone and binds nothing. -/
theorem listed_frame {s s' : State} (listed : Listed s) (subscribers : s'.process.server.subscribers = s.process.server.subscribers)
    (sockets : s'.process.server.subscribers_sockets = s.process.server.subscribers_sockets)
    (binds : s'.process.zmq.binds = s.process.zmq.binds)
    (lengths : ∀ m n, Lengths s.command m n → Lengths s'.command m n)
    (newest : Newest s.process.server.subscribers s.command → Newest s.process.server.subscribers s'.command)
    (bind : ∀ endpoint sock, s.command = .subscribeBind endpoint sock → s'.command = .subscribeBind endpoint sock) :
    Listed s' := by
  refine ⟨?_,?_,?_,?_⟩
  · rw [subscribers]
    exact listed.distinct
  · rw [subscribers,sockets]
    exact lengths _ _ listed.lengths
  · rw [subscribers]
    exact newest listed.newest
  · intro i endpoint sock
    rw [subscribers,sockets,Tried,binds]
    intro at_e at_s
    exact (listed.tried i endpoint sock at_e at_s).imp_right (bind endpoint sock)

/-- A worker changes nothing of the process but ZeroMQ, and nothing of itself but its position and
    its socket. -/
theorem works_frame {p p' : Process} {qt : Qt} {input : Input} {w w' : Worker} (works : Works p qt input w w' p') :
    p' = { p with zmq := p'.zmq } ∧ w' = { w with pc := w'.pc,pull := w'.pull } := by
  cases works <;> exact ⟨rfl,rfl⟩

theorem works_binds {p p' : Process} {qt : Qt} {input : Input} {w w' : Worker} (works : Works p qt input w w' p') :
    p'.zmq.binds = p.zmq.binds := by
  cases works with
  | socket _ => exact Zmq.zmq_socket_binds ..
  | _ => rfl

theorem step_listed {qt : Qt} {turn : Turn} {s s' : State} (listed : Listed s) (taken : step qt s turn = some s') :
    Listed s' := by
  cases step_operation taken with
  | config => exact listed_frame listed (by simp) (by simp) (by simp) (fun _ _ => id) id nofun
  | start => exact listed_frame listed (by simp) (by simp) (by simp) (fun _ _ => id) id nofun
  | duplicate | stop | startFlag | startThread | stopPass _ | stopLeave _ | stopRead _ | stopClose =>
    exact listed_frame listed rfl rfl rfl (fun _ _ => id) id nofun
  | subscribe fresh => exact listed_frame listed rfl rfl rfl (fun _ _ => id) (fun _ => fresh) nofun
  | @subscribePush p endpoint answers =>
    have aligned : p.server.subscribers.length = p.server.subscribers_sockets.length := listed.lengths
    have fresh : endpoint ∉ p.server.subscribers := listed.newest
    refine ⟨?_,?_,?_,?_⟩
    · simpa [List.nodup_append] using ⟨listed.distinct,fun e member same => fresh (same ▸ member)⟩
    · simp [Lengths,aligned]
    · simp [Newest]
    · intro i e sock at_e at_s
      have inside : i < p.server.subscribers_sockets.length := (List.getElem?_eq_some_iff.mp at_s).1
      rw [List.getElem?_append_left (by omega)] at at_e
      exact .inl ((listed.tried i e sock at_e at_s).resolve_right nofun)
  | subscribeSocket =>
    exact listed_frame listed rfl rfl (Zmq.zmq_socket_binds ..) (fun _ _ => id) id nofun
  | @subscribeStore p endpoint push answers =>
    have aligned : p.server.subscribers.length = p.server.subscribers_sockets.length + 1 := listed.lengths
    have last : p.server.subscribers.getLast? = some endpoint := listed.newest
    refine ⟨listed.distinct,by simpa [Lengths] using aligned,last,?_⟩
    intro i e sock at_e at_s
    have inside := (List.getElem?_eq_some_iff.mp at_e).1
    by_cases old : i < p.server.subscribers_sockets.length
    · rw [List.getElem?_append_left old] at at_s
      exact .inl ((listed.tried i e sock at_e at_s).resolve_right nofun)
    · have new : i = p.server.subscribers_sockets.length := by
        change i < p.server.subscribers.length at inside
        omega
      subst new
      rw [List.getLast?_eq_getElem?,aligned,Nat.add_sub_cancel] at last
      rw [last] at at_e
      rw [List.getElem?_concat_length] at at_s
      cases at_e
      cases at_s
      exact .inr rfl
  | @subscribeBind p endpoint push answers =>
    refine ⟨listed.distinct,listed.lengths,trivial,?_⟩
    intro i e sock at_e at_s
    rcases listed.tried i e sock at_e at_s with tried | now
    · exact .inl (tried_bind tried)
    · cases now
      exact .inl ⟨_,List.mem_append_right _ (List.mem_singleton_self _),rfl,rfl⟩
  | stopClear => exact ⟨listed.distinct,rfl,trivial,nofun⟩
  | stopForget => exact ⟨List.nodup_nil,listed.lengths.symm,trivial,nofun⟩
  | worker there works =>
    have server := congrArg Process.server (works_frame works).1
    exact listed_frame listed (congrArg TcpServer.subscribers server) (congrArg TcpServer.subscribers_sockets server)
      (by simpa [setWorker] using works_binds works) (fun _ _ => id) id (fun _ _ => id)

theorem construct_listed (m_handler : Nat) (addr : { a : Nat // 0 < a }) : Listed (whole (construct m_handler addr)) :=
  ⟨List.nodup_nil,rfl,trivial,nofun⟩

/-- Between two commands the sockets kept by the vector are all open PUSH sockets there are. -/
theorem inStep_of_owned {s : State} (idle : s.command = .idle) (owned : Owned s) (pointers : Races.Pointers s)
    (listed : Listed s) : Registry.InStep s.process := by
  have lefts : left s = s.process.server.subscribers_sockets := by rw [left,idle]
  have helds : held s.command = [] := by rw [idle]; rfl
  have account : ∀ k, s.process.server.subscribers_sockets.count (.socket k) + s.process.workers.countP (owns k) +
      s.process.zmq.closes.count (.socket k) = present s.process.zmq k := by
    intro k
    have here := owned.account k
    rw [owners,lefts,helds,List.count_nil] at here
    omega
  have most : ∀ k, present s.process.zmq k ≤ 1 := by
    intro k
    rw [present]
    split <;> decide
  -- A PUSH socket is no worker's.
  have unowned : ∀ k, s.process.zmq.Created .ZMQ_PUSH (.socket k) → s.process.workers.countP (owns k) = 0 := by
    intro k created
    rw [List.countP_eq_zero]
    intro w member owns
    rw [Ownership.owns,Bool.and_eq_true,decide_eq_true_eq] at owns
    have pull := pointers.pulls w member (by simp [owns.2])
    rw [owns.2] at pull
    cases Zmq.created_type created pull
  refine ⟨?_,listed.distinct,owned.single,?_,?_,?_,?_,?_⟩
  · have lengths := listed.lengths
    rw [idle] at lengths
    exact lengths
  · intro sock member nonnull
    have created := pointers.pushes sock (.inl member) nonnull
    refine ⟨created,?_⟩
    obtain ⟨k,-,rfl,-⟩ := id created
    have here := account k
    have once := List.count_pos_iff.mpr member
    have bound := most k
    exact List.count_eq_zero.mp (by omega)
  · intro sock created
    obtain ⟨k,-,rfl,-⟩ := id created
    have here := account k
    rw [unowned k created,present,if_pos (Zmq.created_lt created)] at here
    by_cases member : .socket k ∈ s.process.server.subscribers_sockets
    · exact .inl member
    · rw [List.count_eq_zero_of_not_mem member] at here
      exact .inr (List.count_pos_iff.mp (by omega))
  · intro sock created
    obtain ⟨k,-,rfl,-⟩ := id created
    have here := account k
    have bound := most k
    omega
  · intro sock member nonnull
    obtain ⟨w,there,rfl⟩ := List.mem_map.mp member
    exact pointers.pulls w there nonnull
  · intro k closed
    have here := account k
    have once := List.count_pos_iff.mpr closed
    by_contra beyond
    rw [present,if_neg beyond] at here
    omega

theorem run_pointers {qt : Qt} {s s' : State} {turns : List Turn} (pointers : Races.Pointers s)
    (executed : run (step qt) s turns = some s') : Races.Pointers s' :=
  run_preserved (fun _ _ _ pointers taken => Races.step_pointers pointers (step_effect taken)) pointers executed

/-- In every interleaving, whenever no command is under way, the two vectors are in step, the open
    PUSH sockets are those of the vector, and each of them has been passed to zmq_bind with the
    endpoint at its place. -/
theorem registry_quiescent (qt : Qt) (m_handler : Nat) (addr : { a : Nat // 0 < a }) (turns : List Turn) (s : State)
    (executed : run (step qt) (whole (construct m_handler addr)) turns = some s) (idle : s.command = .idle) :
    Registry.InStep s.process ∧ ∀ (i : Nat) (endpoint : StdString) (sock : VoidPtr),
      s.process.server.subscribers[i]? = some endpoint → s.process.server.subscribers_sockets[i]? = some sock →
        Tried s.process.zmq sock endpoint := by
  have owned := run_owned (construct_owned m_handler addr) executed
  have pointers := run_pointers (Races.construct_pointers m_handler addr).1 executed
  have listed : Listed s :=
    run_preserved (fun _ _ _ listed taken => step_listed listed taken) (construct_listed m_handler addr) executed
  refine ⟨inStep_of_owned idle owned pointers listed,?_⟩
  intro i endpoint sock at_e at_s
  refine (listed.tried i endpoint sock at_e at_s).resolve_right ?_
  rw [idle]
  nofun

/-- A start, and a subscribe with a turn of the worker in between. -/
def untilBound : List Turn :=
  [.command (.start []) .granted,.advance .granted,.advance .granted,
    .command (.subscribe [(key "endpoint",.string (key "tcp://*:1"))]) .granted,.advance .granted,
    .worker 0 (.granted none),.advance .granted,.advance .granted,.advance .granted]

theorem registry_quiescent_bound : ∃ s,
    run (step (.table [])) (whole (construct 0 ⟨1,Nat.one_pos⟩)) untilBound = some s ∧ s.command = .idle ∧
    s.process.server.subscribers_sockets = [.socket 1] ∧ Tried s.process.zmq (.socket 1) (literal "tcp://*:1") := by
  refine ⟨_,rfl,rfl,rfl,?_⟩
  exact (registry_quiescent (.table []) 0 ⟨1,Nat.one_pos⟩ untilBound _ rfl rfl).2 0 _ _ (by decide) rfl

/-! ### What the commands leave behind -/

/-- A process without ZeroMQ and the pointers into it, of which the length of the vector stays, and
    without the positions of the workers. -/
def outline (p : Process) : Process :=
  { p with
    server.subscribers_sockets := p.server.subscribers_sockets.map fun _ => .null
    zmq := ⟨0,[],[],[],[],[]⟩
    workers := p.workers.map fun w => { w with pc := .socket,pull := .null } }

/-- What the command at this position has still to do to an outline. -/
def finish : CommandPc → Process → Process
  | .subscribePush endpoint,p =>
    { p with
      server.subscribers := p.server.subscribers ++ [endpoint]
      server.subscribers_sockets := p.server.subscribers_sockets ++ [.null] }
  | .subscribeSocket _,p | .subscribeStore _ _,p =>
    { p with server.subscribers_sockets := p.server.subscribers_sockets ++ [.null] }
  | .startFlag endpoint,p =>
    { p with
      _stop := false
      server.m_thread := some p.workers.length
      workers := p.workers ++ [⟨.socket,p.server.pull_context,endpoint,p.server.m_handler,.null⟩] }
  | .startThread endpoint,p =>
    { p with
      server.m_thread := some p.workers.length
      workers := p.workers ++ [⟨.socket,p.server.pull_context,endpoint,p.server.m_handler,.null⟩] }
  | .stopTest _,p | .stopRead _,p | .stopClose _ _,p | .stopClear,p =>
    { p with server.subscribers_sockets := [],server.subscribers := [] }
  | .stopForget,p => { p with server.subscribers := [] }
  | .idle,p | .subscribeBind _ _,p => p

/-- The turns that begin a command, as commands that run alone. -/
def commandOf : Turn → List Event
  | .command c answers => [.command c answers]
  | _ => []

theorem outline_subscribers (p : Process) : (outline p).server.subscribers = p.server.subscribers := rfl

theorem outline_ensureHandler (memory : Nat) (p : Process) :
    outline (p.ensureHandler memory) = (outline p).ensureHandler memory := by
  unfold Process.ensureHandler
  by_cases null : p.server.m_handler = 0
  · rw [if_pos null,if_pos (show (outline p).server.m_handler = 0 from null)]
    rfl
  · rw [if_neg null,if_neg (show ¬ (outline p).server.m_handler = 0 from null)]

theorem outline_register (endpoint : StdString) (answers : Answers) (p : Process) :
    outline (p.register endpoint answers) = finish (.subscribePush endpoint) (outline p) := by
  rw [register_eq]
  simp [outline,finish]

theorem outline_start (qt : Qt) (m : QVariantMap) (answers : Answers) (p : Process) :
    outline (p.start qt m answers) =
      finish (.startFlag (Process.endpointOf qt m)) ((outline p).ensureHandler answers.memory) := by
  rw [← outline_ensureHandler]
  simp [Process.start,outline,finish]

theorem outline_stop (p : Process) : outline p.stop = finish (.stopTest 0) { outline p with _stop := true } := rfl

theorem config_eq (qt : Qt) (m : QVariantMap) (answers : Answers) (p : Process) :
    p.config qt m answers =
      ((p.ensureHandler answers.memory).handler? (p.ensureHandler answers.memory).server.m_handler).map
        fun _ => (.ok (),p.ensureHandler answers.memory) := by
  unfold Process.config
  generalize p.ensureHandler answers.memory = q
  cases found : q.handler? q.server.m_handler with
  | none => simp [found]
  | some h => simp [found,ZmqOutHandler.parseConfig,handler_set found]

/-- A config finds its handler by the outline. -/
theorem config_outline (qt : Qt) (m : QVariantMap) (answers : Answers) (p : Process) :
    (p.config qt m answers).map (fun executed => outline executed.2) =
      ((outline p).config qt m answers).map fun executed => executed.2 := by
  simp only [config_eq,Option.map_map,← outline_ensureHandler]
  rfl

/-- A command that runs alone does to the outline what it does to it when it is begun and finished. -/
theorem execute_outline (qt : Qt) (c : Command) (answers : Answers) (p : Process) :
    (execute qt c answers p).map (fun executed => outline executed.2) =
      (begin qt c answers (outline p)).map fun s => finish s.command s.process := by
  cases c with
  | config m =>
    rw [begin,Option.map_map]
    exact config_outline qt m answers p
  | subscribe m =>
    rw [begin_subscribe,execute,subscribe_eq,outline_subscribers]
    by_cases again : p.server.subscribers ≠ [] ∧
        (Process.endpointOf qt m ∈ p.server.subscribers ∨ answers.pastEnd = true)
    · rw [if_pos again,if_pos again]
      rfl
    · rw [if_neg again,if_neg again]
      exact congrArg some (outline_register _ answers p)
  | start m => exact congrArg some (outline_start qt m answers p)
  | stop => exact congrArg some (outline_stop p)

/-- So it does when workers come in between, which change nothing of the outline. -/
theorem begin_outline (qt : Qt) (c : Command) (answers : Answers) (p : Process) :
    (begin qt c answers p).map (fun s => finish s.command (outline s.process)) =
      (begin qt c answers (outline p)).map fun s => finish s.command s.process := by
  cases c with
  | config m =>
    rw [begin,begin,Option.map_map,Option.map_map]
    exact config_outline qt m answers p
  | subscribe m =>
    rw [begin_subscribe,begin_subscribe,outline_subscribers]
    by_cases again : p.server.subscribers ≠ [] ∧
        (Process.endpointOf qt m ∈ p.server.subscribers ∨ answers.pastEnd = true)
    · rw [if_pos again,if_pos again]
      rfl
    · rw [if_neg again,if_neg again]
      rfl
  | start m => exact congrArg some (congrArg _ (outline_ensureHandler answers.memory p))
  | stop => rfl

theorem works_outline {p p' : Process} {qt : Qt} {k : Nat} {input : Input} {w w' : Worker}
    (there : p.workers[k]? = some w) (works : Works p qt input w w' p') : outline (setWorker k w' p') = outline p := by
  obtain ⟨process,worker⟩ := works_frame works
  have workers : (p.workers.set k w').map (fun w => { w with pc := .socket,pull := .null }) =
      p.workers.map fun w : Worker => { w with pc := .socket,pull := .null } :=
    map_set_same there (by rw [worker])
  rw [process]
  simp only [outline,setWorker,workers]

/-- What the command has still to do after one of its operations. -/
theorem advance_finish {qt : Qt} {answers : Answers} {s s' : State} (taken : step qt s (.advance answers) = some s') :
    finish s'.command (outline s'.process) = finish s.command (outline s.process) := by
  cases step_operation taken with
  | subscribePush | subscribeStore | startThread => simp [outline,finish]
  | subscribeSocket | subscribeBind | startFlag | stopPass _ | stopLeave _ | stopRead _ | stopClose | stopClear
  | stopForget => rfl

/-- The process is, but for what the outline leaves out, where the command under way will leave the node. -/
def Settles (p : Process) (s : State) : Prop := outline p = finish s.command (outline s.process)

theorem construct_settles (m_handler : Nat) (addr : { a : Nat // 0 < a }) :
    Settles (construct m_handler addr) (whole (construct m_handler addr)) := rfl

theorem step_settles {qt : Qt} {p : Process} {s s' : State} {turn : Turn} (settles : Settles p s)
    (taken : step qt s turn = some s') : ∃ p', run (Server.step qt) p (commandOf turn) = some p' ∧ Settles p' s' := by
  cases turn with
  | command c answers =>
    rw [step] at taken
    split at taken
    · rename_i idle
      rw [Settles,idle] at settles
      have begun := begin_outline qt c answers s.process
      rw [taken,← show outline p = outline s.process from settles,← execute_outline] at begun
      obtain ⟨r,ran,finished⟩ := Option.map_eq_some_iff.mp begun.symm
      refine ⟨r.2,?_,finished⟩
      simp [commandOf,Server.step,ran]
    · cases taken
  | advance answers => exact ⟨p,rfl,settles.trans (advance_finish taken).symm⟩
  | worker k input =>
    refine ⟨p,rfl,?_⟩
    cases step_operation taken with
    | worker there works =>
      rw [Settles,works_outline there works]
      exact settles

/-- The commands that a run begins keep up with it when they run alone. -/
theorem run_settles {qt : Qt} {p : Process} {s s' : State} {turns : List Turn} (settles : Settles p s)
    (executed : run (step qt) s turns = some s') :
    ∃ p', run (Server.step qt) p (turns.flatMap commandOf) = some p' ∧ Settles p' s' := by
  rw [← trace_actions executed]
  exact run_related (fun _ _ _ _ settles taken => step_settles settles taken) settles executed

/-- In every interleaving the commands that have begun have left, as soon as the last of them is finished,
    what they leave when they run alone one after the other, the sockets apart. -/
theorem commands_linear (qt : Qt) (m_handler : Nat) (addr : { a : Nat // 0 < a }) (turns : List Turn) (s : State)
    (executed : run (step qt) (whole (construct m_handler addr)) turns = some s) :
    ∃ p, run (Server.step qt) (construct m_handler addr) (turns.flatMap commandOf) = some p ∧
      outline p = finish s.command (outline s.process) :=
  run_settles (construct_settles m_handler addr) executed

theorem commands_linear_until_close : ∃ s p,
    run (step (.table [])) (whole (construct 0 ⟨1,Nat.one_pos⟩)) untilClose = some s ∧
    run (Server.step (.table [])) (construct 0 ⟨1,Nat.one_pos⟩) (untilClose.flatMap commandOf) = some p ∧
    outline p = finish s.command (outline s.process) ∧ outline s.process ≠ outline p := by
  obtain ⟨p,alone,same⟩ := commands_linear (.table []) 0 ⟨1,Nat.one_pos⟩ untilClose _ rfl
  refine ⟨_,p,rfl,alone,same,?_⟩
  rw [same]
  exact fun unfinished => absurd (congrArg (fun p => p.server.subscribers) unfinished) (by decide)

end ZmqOut.Quiescent
