import ZmqOut.HandlerPointer
import ZmqOut.Lanes

/-!
What the threads can do next. The command under way can always go on and finishes
after a number of operations of its own that is known from its position; a worker that
has not returned can go on unless it calls at with an index out of range.
-/
namespace ZmqOut.Progress
open ZmqOut.Runs ZmqOut.Accounts ZmqOut.DataStream ZmqOut.Variant ZmqOut.Sockets ZmqOut.Steps ZmqOut.Threads ZmqOut.Turns
open ZmqOut.Operations ZmqOut.Ownership ZmqOut.HandlerPointer
open ZmqOut.Server hiding step

/-! ### Which operations are defined -/

/-- The handlers behind the pointers, and the index that stop reads. -/
structure Pointed (s : State) : Prop where
  handlers : Handlers s.process
  starting : ∀ endpoint, s.command = .startFlag endpoint ∨ s.command = .startThread endpoint → 0 < s.process.server.m_handler
  reading : ∀ i, s.command = .stopRead i → i < s.process.server.subscribers_sockets.length

theorem step_pointed {qt : Qt} {turn : Turn} {s s' : State} (pointed : Pointed s) (taken : step qt s turn = some s') :
    Pointed s' := by
  obtain ⟨handlers,starting,reading⟩ := pointed
  cases step_operation taken with
  | config => exact ⟨(ensureHandler_handlers _ handlers).1,nofun,nofun⟩
  | start =>
    obtain ⟨ensured,positive⟩ := ensureHandler_handlers _ handlers
    exact ⟨ensured,fun _ _ => positive,nofun⟩
  | duplicate | subscribe _ | stop | subscribePush | subscribeSocket | subscribeStore | subscribeBind
  | stopLeave _ | stopRead _ | stopClose | stopClear | stopForget =>
    exact ⟨handlers_frame handlers rfl rfl rfl rfl,nofun,nofun⟩
  | startFlag => exact ⟨handlers_frame handlers rfl rfl rfl rfl,fun _ _ => starting _ (.inl rfl),nofun⟩
  | startThread =>
    refine ⟨⟨handlers.made,handlers.current,?_⟩,nofun,nofun⟩
    intro w member
    rcases List.mem_append.mp member with old | new
    · exact handlers.workers w old
    · rw [List.mem_singleton.mp new]
      exact ⟨starting _ (.inr rfl),handlers.current⟩
  | stopPass inside =>
    refine ⟨handlers,nofun,?_⟩
    rintro _ ⟨⟩
    exact inside
  | @worker p p' command k input w w' there works =>
    obtain ⟨process,worker⟩ := Quiescent.works_frame works
    have handler : w'.handler = w.handler := by rw [worker]
    have server : p'.server = p.server := by rw [process]
    refine ⟨handlers_frame handlers ?_ ?_ ?_ ?_,?_,?_⟩
    · rw [process]; rfl
    · simp only [setWorker,server]
    · simp only [setWorker,server]
    · have same : p'.workers = p.workers := by rw [process]
      simp only [setWorker,same]
      exact map_set_same there handler
    · simp only [setWorker,server]
      exact starting
    · simp only [setWorker,server]
      exact reading

theorem construct_pointed (addr : { a : Nat // 0 < a }) : Pointed (whole (construct 0 addr)) :=
  ⟨construct_handlers addr,nofun,nofun⟩

theorem run_pointed {qt : Qt} {s s' : State} {turns : List Turn} (pointed : Pointed s)
    (executed : run (step qt) s turns = some s') : Pointed s' :=
  run_preserved (fun _ _ _ pointed taken => step_pointed pointed taken) pointed executed

/-- Every worker finds the vector of the server behind its handler. -/
theorem vectorOf_handlers {p : Process} {k : Nat} {w : Worker} (handlers : Handlers p) (there : p.workers[k]? = some w) :
    vectorOf w p = some p.server.subscribers_sockets := by
  obtain ⟨positive,inside⟩ := handlers.workers w (List.mem_of_getElem? there)
  obtain ⟨h,found,vector⟩ := handlers.valid positive inside
  rw [vectorOf,found,Option.bind_some,Process.vector?,if_pos vector]

theorem work_undefined {qt : Qt} {p : Process} {k : Nat} {w : Worker} (handlers : Handlers p)
    (there : p.workers[k]? = some w) (input : Input) :
    work qt w input p = none ↔
      w.pc = .done ∨ ∃ data i, w.pc = .fetch data i ∧ p.server.subscribers_sockets.length ≤ i := by
  have vector := vectorOf_handlers handlers there
  cases pc : w.pc with
  | socket | connect | options | test | send _ _ _ | closePull | done => simp [work,do_start,pc]
  | recv =>
    simp only [work,do_start,pc]
    cases input.message <;> simp
  | handle df => simp [work,pc,vector]
  | guard data => cases data <;> simp [work,pc,vector]
  | loop data i => simp [work,pc,vector]
  | fetch data i => simp [work,pc,vector]
  | closeHandler =>
    obtain ⟨positive,inside⟩ := handlers.workers w (List.mem_of_getElem? there)
    obtain ⟨h,found,-⟩ := handlers.valid positive inside
    simp [work,do_start,pc,found]

/-- In every interleaving, the memory of m_handler being null at first, every command can begin when none is
    under way, the one under way can go on, and so can every worker that has not returned, unless
    it calls at with an index out of range. -/
theorem threads_progress (qt : Qt) (addr : { a : Nat // 0 < a }) (turns : List Turn) (s : State)
    (executed : run (step qt) (whole (construct 0 addr)) turns = some s) :
    (∀ c answers, (step qt s (.command c answers)).isSome ↔ s.command = .idle) ∧
      (∀ answers, (step qt s (.advance answers)).isSome ↔ s.command ≠ .idle) ∧
      ∀ k w input, s.process.workers[k]? = some w → (step qt s (.worker k input) = none ↔
        w.pc = .done ∨ ∃ data i, w.pc = .fetch data i ∧ s.process.server.subscribers_sockets.length ≤ i) := by
  have pointed := run_pointed (construct_pointed addr) executed
  refine ⟨?_,?_,?_⟩
  · intro c answers
    rw [step]
    by_cases idle : s.command = .idle
    · rw [if_pos idle]
      cases c with
      | config m => simp [begin,config_defined qt m answers pointed.handlers,idle]
      | subscribe m =>
        rw [begin_subscribe]
        split <;> simp [idle]
      | start m | stop => simp [begin,idle]
    · simp [idle]
  · intro answers
    cases command : s.command with
    | stopRead i =>
      have inside := pointed.reading i command
      simp [step,advance,command,inside]
    | _ => simp [step,advance,command]
  · intro k w input there
    rw [step,there,Option.bind_some,Option.map_eq_none_iff]
    exact work_undefined pointed.handlers there input

/-- A worker has tested its index when a stop clears the vector. -/
def untilStuck : List Turn := Races.untilFetch ++ .command .stop .granted :: List.replicate 5 (.advance .granted)

theorem threads_progress_stuck : ∃ s w data,
    run (step (.table [])) (whole (construct 0 ⟨1,Nat.one_pos⟩)) untilStuck = some s ∧ s.process.workers[0]? = some w ∧
    w.pc = .fetch data 0 ∧ step (.table []) s (.worker 0 (.granted none)) = none ∧
    (step (.table []) s (.advance .granted)).isSome := by
  have executed : ∃ s w data, run (step (.table [])) (whole (construct 0 ⟨1,Nat.one_pos⟩)) untilStuck = some s ∧
      s.process.workers[0]? = some w ∧ w.pc = .fetch data 0 ∧ s.process.server.subscribers_sockets = [] ∧
      s.command ≠ .idle :=
    ⟨_,_,_,rfl,rfl,rfl,rfl,nofun⟩
  obtain ⟨s,w,data,executed,there,pc,empty,busy⟩ := executed
  obtain ⟨-,advances,works⟩ := threads_progress (.table []) ⟨1,Nat.one_pos⟩ untilStuck s executed
  refine ⟨s,w,data,executed,there,pc,(works 0 w _ there).mpr (.inr ⟨data,0,pc,?_⟩),(advances .granted).mpr busy⟩
  rw [empty]
  exact Nat.le_refl 0

/-! ### How long a command takes -/

/-- How many operations the command thread has still to do. -/
def remaining (s : State) : Nat :=
  let n := s.process.server.subscribers_sockets.length
  match s.command with
  | .idle => 0
  | .subscribePush _ => 4
  | .subscribeSocket _ => 3
  | .subscribeStore _ _ => 2
  | .subscribeBind _ _ => 1
  | .startFlag _ => 2
  | .startThread _ => 1
  | .stopTest i => 3 * (n - i) + 3
  | .stopRead i => 3 * (n - i) + 2
  | .stopClose i _ => 3 * (n - i) + 1
  | .stopClear => 2
  | .stopForget => 1

def advances : Turn → Bool
  | .advance _ => true
  | _ => false

/-- The turn does not begin a command. -/
def Continues (_ : State) : Turn → Prop
  | .command _ _ => False
  | _ => True

theorem remaining_zero (s : State) : remaining s = 0 ↔ s.command = .idle := by
  unfold remaining
  cases s.command <;> simp

theorem step_remaining {qt : Qt} {turn : Turn} {s s' : State} (owned : Owned s) (continues : Continues s turn)
    (taken : step qt s turn = some s') : remaining s' + (if advances turn then 1 else 0) = remaining s := by
  cases step_operation taken with
  | config | duplicate | subscribe _ | start | stop => exact continues.elim
  | subscribePush | subscribeSocket | subscribeStore | subscribeBind | startFlag | startThread | stopRead _
  | stopClear | stopForget => rfl
  | stopPass inside => rfl
  | @stopLeave p i answers beyond =>
    simp only [remaining,advances,↓reduceIte]
    omega
  | @stopClose p i push_sock answers =>
    have inside : i < p.server.subscribers_sockets.length :=
      (List.getElem?_eq_some_iff.mp (owned.closing i push_sock rfl)).1
    simp only [remaining,advances,↓reduceIte]
    omega
  | @worker p p' command k input w w' there works =>
    have server := congrArg Process.server (Quiescent.works_frame works).1
    have same : (setWorker k w' p').server = p.server := server
    simp only [remaining,advances,same]
    rfl

/-- Whatever the workers do in between, a command finishes after exactly as many operations of its own as
    its position says. -/
theorem commands_finish (qt : Qt) (m_handler : Nat) (addr : { a : Nat // 0 < a }) (before after : List Turn) (s s' : State)
    (reached : run (step qt) (whole (construct m_handler addr)) before = some s)
    (continues : Meets (step qt) Continues s after) (executed : run (step qt) s after = some s') :
    remaining s' + after.countP advances = remaining s ∧ (after.countP advances = remaining s ↔ s'.command = .idle) := by
  have owned := run_owned (construct_owned m_handler addr) reached
  have kept : ∀ s turn s', Owned s → Continues s turn → step qt s turn = some s' → Owned s' :=
    fun _ _ _ owned _ taken => step_owned owned taken
  have measured := run_measured adds_eq remaining kept (fun _ _ _ => step_remaining) owned continues executed
  refine ⟨measured,?_⟩
  rw [← remaining_zero]
  omega

theorem commands_finish_stop : ∃ s s',
    run (step (.table [])) (whole (construct 0 ⟨1,Nat.one_pos⟩)) untilClose = some s ∧
    run (step (.table [])) s (List.replicate 4 (.advance .granted)) = some s' ∧ s'.command = .idle := by
  have continues : ∀ turn ∈ List.replicate 4 (Turn.advance .granted), ∀ s, Continues s turn := by
    intro turn member s
    rw [List.eq_of_mem_replicate member]
    trivial
  have finished := commands_finish (.table []) 0 ⟨1,Nat.one_pos⟩ untilClose (List.replicate 4 (.advance .granted)) _ _ rfl
    (meets_of_forall continues _) rfl
  exact ⟨_,_,rfl,rfl,finished.2.mp (by decide)⟩

end ZmqOut.Progress
