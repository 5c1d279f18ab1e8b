import Mathlib.Tactic.IntervalCases
import ZmqOut.Fairness
import ZmqOut.Progress

/-!
What follows a stop. Once it has finished and nothing is started or subscribed any
more, every worker returns after a few operations of its own, and then every socket
that was ever created has been closed once. Where no thread is neglected for ever, a
stop comes to that.
-/
namespace ZmqOut.Shutdown
open ZmqOut.Runs ZmqOut.Accounts ZmqOut.DataStream ZmqOut.Variant ZmqOut.Sockets ZmqOut.Steps ZmqOut.Threads ZmqOut.Turns
open ZmqOut.Operations ZmqOut.Ownership ZmqOut.Lanes ZmqOut.Progress ZmqOut.Fairness
open ZmqOut.Server hiding step

/-- How many operations a worker has at most before it when the flag is set and the vector empty. -/
def distance : Option WorkerPc → Nat
  | some .socket | some .recv | some (.fetch _ _) => 6
  | some .connect | some (.handle _) | some (.send _ _ _) => 5
  | some .options | some (.guard _) | some (.loop _ _) => 4
  | some .test => 3
  | some .closePull => 2
  | some .closeHandler => 1
  | some .done | none => 0

/-- The command neither stores a socket nor clears the flag nor makes a worker. -/
def Harmless : CommandPc → Prop
  | .idle | .stopTest _ | .stopRead _ | .stopClose _ _ | .stopClear | .stopForget => True
  | _ => False

/-- A stop has finished, and no other command than config and stop came after it. -/
structure Stopped (s : State) : Prop where
  owned : Owned s
  flag : s.process._stop = true
  vector : s.process.server.subscribers_sockets = []
  command : Harmless s.command

/-- The turn begins neither a subscribe nor a start. -/
def Silent (_ : State) : Turn → Prop
  | .command (.subscribe _) _ | .command (.start _) _ => False
  | _ => True

def turnOf (k : Nat) : Turn → Bool
  | .worker j _ => j = k
  | _ => false

theorem turnOf_elsewhere {k : Nat} {turn : Turn} (elsewhere : Elsewhere k turn) : turnOf k turn = false := by
  cases turn with
  | command _ _ | advance _ => rfl
  | worker j input => exact decide_eq_false elsewhere

section
variable {qt : Qt} {turn : Turn} {s s' : State}

theorem step_stopped (stopped : Stopped s) (silent : Silent s turn) (taken : step qt s turn = some s') : Stopped s' := by
  obtain ⟨owned,flag,vector,command⟩ := stopped
  have owned' := step_owned owned taken
  cases step_operation taken with
  | config => exact ⟨owned',by simpa using flag,by simpa using vector,trivial⟩
  | duplicate | subscribe _ | start => exact silent.elim
  | stop => exact ⟨owned',rfl,vector,trivial⟩
  | subscribePush | subscribeSocket | subscribeStore | subscribeBind | startFlag | startThread => exact command.elim
  | stopPass _ | stopLeave _ | stopRead _ | stopClose | stopForget => exact ⟨owned',flag,vector,trivial⟩
  | stopClear => exact ⟨owned',flag,rfl,trivial⟩
  | @worker p p' _ k input w w' there works =>
    have process := (Quiescent.works_frame works).1
    refine ⟨owned',?_,?_,command⟩
    · rw [process]
      exact flag
    · rw [process]
      exact vector

/-- No thread is made any more. -/
theorem position_stopped {k : Nat} (stopped : Stopped s) (elsewhere : Elsewhere k turn)
    (taken : step qt s turn = some s') : position k s' = position k s := by
  rcases position_elsewhere elsewhere taken with same | ⟨⟨endpoint,starting⟩,-⟩
  · exact same
  · have command := stopped.command
    rw [starting] at command
    exact command.elim

theorem works_distance {p p' : Process} {input : Input} {w w' : Worker} (flag : p._stop = true)
    (vector : p.server.subscribers_sockets = []) (works : Works p qt input w w' p') :
    distance (some w'.pc) + 1 ≤ distance (some w.pc) := by
  cases works with
  | test pc => simp [distance,pc,flag]
  | enter pc nonempty => exact absurd vector nonempty
  | pass pc inside => simp [vector] at inside
  | fetch pc found => simp [vector] at found
  | socket pc | connect pc | options pc | timeout pc _ | receive pc _ | handle pc | discard pc | skip pc _ | leave pc _
  | send pc | closePull pc | closeHandler pc => simp [distance,pc]

theorem step_distance {k : Nat} (stopped : Stopped s) (taken : step qt s turn = some s') :
    distance (position k s') + (if turnOf k turn then 1 else 0) ≤ distance (position k s) := by
  rcases elsewhere_or k turn with elsewhere | ⟨input,rfl⟩
  · rw [position_stopped stopped elsewhere taken,turnOf_elsewhere elsewhere]
    exact Nat.le_refl _
  · cases step_operation taken with
    | worker there works =>
      rw [position_here there,position_after there works]
      simpa [turnOf] using works_distance stopped.flag stopped.vector works

/-- When all workers have returned nothing is left to be closed. -/
theorem closed_of_done (stopped : Stopped s) (done : ∀ w ∈ s.process.workers, w.pc = .done) (k : Nat)
    (created : k < s.process.zmq.created.length) : s.process.zmq.closes.count (.socket k) = 1 := by
  have account := stopped.owned.account k
  have none : s.process.workers.countP (owns k) = 0 := by
    rw [List.countP_eq_zero]
    intro w member
    simp [owns,hasPull,done w member]
  have lefts : left s = [] := by
    unfold left
    split <;> simp [stopped.vector]
  have helds : held s.command = [] := by
    have command := stopped.command
    unfold held
    split
    · rename_i storing
      rw [storing] at command
      exact command.elim
    · rfl
  rw [owners,none,lefts,helds,present,if_pos created] at account
  simpa using account

end

/-- After a stop has finished, whatever the other threads do, no worker has more operations before it than
    its position says, and when all workers have returned every socket has been closed exactly once. -/
theorem shuts_down (qt : Qt) (m_handler : Nat) (addr : { a : Nat // 0 < a }) (before after : List Turn) (s s' : State)
    (reached : run (step qt) (whole (construct m_handler addr)) before = some s) (idle : s.command = .idle)
    (flag : s.process._stop = true) (vector : s.process.server.subscribers_sockets = [])
    (silent : Meets (step qt) Silent s after) (executed : run (step qt) s after = some s') :
    (∀ k, distance (position k s') + after.countP (turnOf k) ≤ distance (position k s)) ∧
      ((∀ w ∈ s'.process.workers, w.pc = .done) →
        ∀ k, k < s'.process.zmq.created.length → s'.process.zmq.closes.count (.socket k) = 1) := by
  have owned := run_owned (construct_owned m_handler addr) reached
  have stopped : Stopped s := ⟨owned,flag,vector,by rw [idle]; trivial⟩
  have kept : ∀ s turn s', Stopped s → Silent s turn → step qt s turn = some s' → Stopped s' :=
    fun _ _ _ => step_stopped
  refine ⟨?_,?_⟩
  · intro k
    exact run_measured adds_le (fun s => distance (position k s)) kept (fun _ _ _ stopped _ => step_distance stopped)
      stopped silent executed
  · intro done k created
    exact closed_of_done (run_invariant kept stopped silent executed) done k created

/-- A stop that has finished, with a worker that waits for a message. -/
def untilStopped : List Turn :=
  .command (.start []) .granted :: List.replicate 2 (.advance .granted) ++ List.replicate 4 (.worker 0 (.granted none)) ++
    .command .stop .granted :: List.replicate 3 (.advance .granted)

theorem shuts_down_waiting : ∃ s s',
    run (step (.table [])) (whole (construct 0 ⟨1,Nat.one_pos⟩)) untilStopped = some s ∧
    run (step (.table [])) s (List.replicate 4 (.worker 0 (.granted none))) = some s' ∧
    s'.process.workers.map Worker.pc = [.done] ∧ s'.process.zmq.closes.count (.socket 0) = 1 := by
  have silent : ∀ turn ∈ List.replicate 4 (Turn.worker 0 (.granted none)), ∀ s, Silent s turn := by
    intro turn member s
    rw [List.eq_of_mem_replicate member]
    trivial
  have down := shuts_down (.table []) 0 ⟨1,Nat.one_pos⟩ untilStopped (List.replicate 4 (.worker 0 (.granted none))) _ _ rfl
    rfl rfl rfl (meets_of_forall silent _) rfl
  refine ⟨_,_,rfl,rfl,rfl,down.2 ?_ 0 (by decide)⟩
  intro w member
  rw [List.mem_singleton.mp member]

/-! ### Where no thread is neglected -/

/-- A stop is under way or has finished. -/
structure Closing (s : State) : Prop where
  owned : Owned s
  flag : s.process._stop = true
  command : Harmless s.command
  cleared : s.command = .idle ∨ s.command = .stopForget → s.process.server.subscribers_sockets = []

/-- Worker `k` has returned or was not made. -/
def Returned (k : Nat) (s : State) : Prop := distance (position k s) = 0

section
variable {qt : Qt} {turn : Turn} {s s' : State}

theorem step_closing (closing : Closing s) (silent : Silent s turn) (taken : step qt s turn = some s') : Closing s' := by
  obtain ⟨owned,flag,command,cleared⟩ := closing
  have owned' := step_owned owned taken
  cases step_operation taken with
  | config => exact ⟨owned',by simpa using flag,trivial,fun _ => by simpa using cleared (.inl rfl)⟩
  | duplicate | subscribe _ | start => exact silent.elim
  | stop => exact ⟨owned',rfl,trivial,by simp⟩
  | subscribePush | subscribeSocket | subscribeStore | subscribeBind | startFlag | startThread => exact command.elim
  | stopPass _ | stopLeave _ | stopRead _ | stopClose => exact ⟨owned',flag,trivial,by simp⟩
  | stopClear => exact ⟨owned',flag,trivial,fun _ => rfl⟩
  | stopForget => exact ⟨owned',flag,trivial,fun _ => cleared (.inr rfl)⟩
  | worker there works =>
    have process := (Quiescent.works_frame works).1
    refine ⟨owned',?_,command,?_⟩
    · rw [process]
      exact flag
    · rw [process]
      exact cleared

/-- A command begins when none is under way. -/
theorem continues_of_busy (busy : s.command ≠ .idle) (taken : step qt s turn = some s') : Continues s turn := by
  cases turn with
  | command c answers =>
    rw [step,if_neg busy] at taken
    cases taken
  | advance _ | worker _ _ => trivial

theorem stopped_of_idle (closing : Closing s) (idle : s.command = .idle) : Stopped s :=
  ⟨closing.owned,closing.flag,closing.cleared (.inl idle),closing.command⟩

/-- A worker that has returned takes no turn, and no worker is made. -/
theorem step_returned {k : Nat} (returned : Stopped s ∧ Returned k s) (silent : Silent s turn)
    (taken : step qt s turn = some s') : Stopped s' ∧ Returned k s' := by
  obtain ⟨stopped,here⟩ := returned
  refine ⟨step_stopped stopped silent taken,?_⟩
  have below := step_distance (k := k) stopped taken
  rw [Returned] at here ⊢
  omega

theorem done_of_returned (returned : ∀ k, Returned k s) : ∀ w ∈ s.process.workers, w.pc = .done := by
  intro w member
  obtain ⟨k,inside,rfl⟩ := List.getElem_of_mem member
  have here := returned k
  rw [Returned,position,List.getElem?_eq_getElem inside,Option.map_some] at here
  generalize s.process.workers[k].pc = pc at here
  cases pc <;> simp [distance] at here ⊢

end

/-- In every endless run with a stop after which nothing is subscribed or started, in which the command
    thread goes on with its command and no worker is neglected before it has returned, from some point
    on all workers have returned and every socket that was created has been closed exactly once; nothing
    else need happen from then on. -/
theorem stop_shuts_down (qt : Qt) (m_handler : Nat) (addr : { a : Nat // 0 < a }) (r : Endless (step qt))
    (constructed : r.state 0 = whole (construct m_handler addr)) (i : Nat) (answers : Answers)
    (stop : r.action i = some (.command .stop answers))
    (silent : ∀ j turn, i < j → r.action j = some turn → Silent (r.state j) turn)
    (goes : r.Fair advances fun s => s.command = .idle) (works : ∀ k, r.Fair (turnOf k) (Returned k)) :
    ∃ n, ∀ j, n ≤ j → (∀ w ∈ (r.state j).process.workers, w.pc = .done) ∧
      ∀ k, k < (r.state j).process.zmq.created.length → (r.state j).process.zmq.closes.count (.socket k) = 1 := by
  have owned : Owned (r.state i) := by
    obtain ⟨turns,executed⟩ := r.reached i
    rw [constructed] at executed
    exact run_owned (construct_owned m_handler addr) executed
  have begun : Closing (r.state (i + 1)) := by
    have taken := r.taken i _ stop
    have owned' := step_owned owned taken
    generalize r.state i = s at taken
    generalize r.state (i + 1) = s' at taken owned'
    cases step_operation taken with
    | stop => exact ⟨owned',rfl,trivial,by simp⟩
  have closing : ∀ j, i + 1 ≤ j → Closing (r.state j) :=
    fun j later => r.keeps (fun _ _ _ => step_closing) begun silent later
  obtain ⟨m,after,idle⟩ := r.leads_to remaining goes (fun j turn later takes busy =>
    have taken := r.taken j turn takes
    Nat.le_of_eq (step_remaining (closing j later).owned (continues_of_busy busy taken) taken))
  have quiet : ∀ j turn, m ≤ j → r.action j = some turn → Silent (r.state j) turn :=
    fun j turn later => silent j turn (by omega)
  have stopped : ∀ j, m ≤ j → Stopped (r.state j) :=
    fun j later => r.keeps (fun _ _ _ => step_stopped) (stopped_of_idle (closing m after) idle) quiet later
  have stays : ∀ k j, m ≤ j → Returned k (r.state j) → ∀ j', j ≤ j' → Returned k (r.state j') := by
    intro k j later returned j' onward
    exact (r.keeps (fun _ _ _ => step_returned) ⟨stopped j later,returned⟩
      (fun j' turn onward => quiet j' turn (by omega)) onward).2
  have eventually : ∀ k, ∃ n, ∀ j, n ≤ j → Returned k (r.state j) := by
    intro k
    obtain ⟨j,later,returned⟩ := r.leads_to (fun s => distance (position k s)) (works k)
      (fun j turn later takes _ => step_distance (stopped j later) (r.taken j turn takes))
    exact ⟨j,stays k j later returned⟩
  obtain ⟨n,all⟩ := Endless.eventually_all (r.state m).process.workers.length (fun k _ => eventually k)
  refine ⟨max m n,?_⟩
  intro j later
  have returned : ∀ k, Returned k (r.state j) := by
    intro k
    by_cases inside : k < (r.state m).process.workers.length
    · exact all j (by omega) k inside
    · refine stays k m (Nat.le_refl m) ?_ j (by omega)
      rw [Returned,position,List.getElem?_eq_none (Nat.le_of_not_lt inside)]
      rfl
  exact ⟨done_of_returned returned,closed_of_done (stopped j (by omega)) (done_of_returned returned)⟩

/-- The worker that waits for a message returns after the stop. -/
def untilReturned : List Turn := untilStopped ++ List.replicate 4 (.worker 0 (.granted none))

theorem untilReturned_rests : ∃ s, run (step (.table [])) (whole (construct 0 ⟨1,Nat.one_pos⟩)) untilReturned = some s ∧
    s.command = .idle ∧ ∀ k, Returned k s := by
  refine ⟨_,rfl,rfl,?_⟩
  intro k
  cases k <;> rfl

/-- After the stop nothing else happens. -/
theorem stop_shuts_down_waiting : ∃ r : Endless (step (.table [])),
    r.state 0 = whole (construct 0 ⟨1,Nat.one_pos⟩) ∧ r.action 7 = some (.command .stop .granted) ∧
    (∀ j, 15 ≤ j → r.action j = none) ∧
    ∃ n, ∀ j, n ≤ j → (∀ w ∈ (r.state j).process.workers, w.pc = .done) ∧
      ∀ k, k < (r.state j).process.zmq.created.length → (r.state j).process.zmq.closes.count (.socket k) = 1 := by
  obtain ⟨s,executed,idle,returned⟩ := untilReturned_rests
  have beyond : ∀ i, ¬ i < 15 → (Endless.halting executed).state i = s :=
    fun i late => Endless.halting_beyond executed (Nat.le_of_not_lt late)
  have alone : ∀ j, 15 ≤ j → (Endless.halting executed).action j = none := fun j late => List.getElem?_eq_none late
  refine ⟨Endless.halting executed,rfl,rfl,alone,stop_shuts_down (.table []) 0 ⟨1,Nat.one_pos⟩ _ rfl 7 .granted rfl ?_ ?_ ?_⟩
  · intro j turn later takes
    by_cases early : j < 15
    · interval_cases j <;> cases takes <;> trivial
    · rw [alone j (Nat.le_of_not_lt early)] at takes
      cases takes
  · refine Endless.fair_of_last _ 10 rfl ?_
    intro i later
    by_cases early : i < 15
    · interval_cases i <;> rfl
    · rw [beyond i early]
      exact idle
  · intro k
    cases k with
    | zero =>
      refine Endless.fair_of_last _ 14 rfl ?_
      intro i later
      rw [beyond i (by omega)]
      exact returned 0
    | succ k =>
      intro i restless
      refine absurd ?_ restless
      by_cases early : i < 15
      · interval_cases i <;> rfl
      · rw [beyond i early]
        exact returned (k + 1)

end ZmqOut.Shutdown
