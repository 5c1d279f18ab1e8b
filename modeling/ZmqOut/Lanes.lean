import ZmqOut.Accounts
import ZmqOut.Quiescent

/-!
What a worker passes to one subscriber. In every interleaving, with stops and new
subscribers at any point, it passes each message that it makes at most once and in
order; as long as no stop comes, exactly once.
-/
namespace ZmqOut.Lanes
open ZmqOut.Runs ZmqOut.Accounts ZmqOut.DataStream ZmqOut.Variant ZmqOut.Sockets ZmqOut.Steps ZmqOut.Threads ZmqOut.Turns
open ZmqOut.Operations ZmqOut.Ownership
open ZmqOut.Server hiding step

/-- Where worker `k` is, if there is one. -/
def position (k : Nat) (s : State) : Option WorkerPc := s.process.workers[k]?.map Worker.pc

/-- What the worker whose turn it is shows, by its position, with the worker. -/
def shown {α : Type} (what : WorkerPc → Input → Option α) (s : State) : Turn → List (Nat × α)
  | .worker k input => (((position k s).bind fun pc => what pc input).map fun a => (k,a)).toList
  | _ => []

/-- The call of zmq_msg_send that the turn makes. -/
def calls (s : State) : Turn → List (Nat × Send) := shown (fun pc input =>
  match pc with
  | .send data i sub_sock => some ⟨sub_sock,data,input.rc i⟩
  | _ => none) s

/-- The message that the turn makes. -/
def made (qt : Qt) (s : State) : Turn → List (Nat × List UInt8) := shown (fun pc input =>
  match pc with
  | .handle _ => some (payload qt input.duration)
  | _ => none) s

/-- What is worker `k`'s. -/
def ofWorker {α : Type} (k : Nat) (entry : Nat × α) : Option α := if entry.1 = k then some entry.2 else none

/-- The message of the call if worker `k` makes it on this socket. -/
def sentBy (k : Nat) (sock : VoidPtr) (call : Nat × Send) : Option (List UInt8) :=
  if call.1 = k ∧ call.2.socket = sock then some call.2.data else none

/-- The turn is not worker `k`'s. -/
def Elsewhere (k : Nat) : Turn → Prop
  | .worker j _ => j ≠ k
  | _ => True

section
variable {qt : Qt} {s s' : State} {turn : Turn} {k : Nat}

theorem shown_elsewhere {α β : Type} {what : WorkerPc → Input → Option α} {select : Nat × α → Option β}
    (others : ∀ j a, j ≠ k → select (j,a) = none) (elsewhere : Elsewhere k turn) :
    (shown what s turn).filterMap select = [] := by
  cases turn with
  | command _ _ | advance _ => rfl
  | worker j input =>
    rw [shown]
    cases (position j s).bind fun pc => what pc input with
    | none => rfl
    | some a => simp [others j a elsewhere]

theorem ofWorker_other {α : Type} (j : Nat) (a : α) (other : j ≠ k) : ofWorker k (j,a) = none := if_neg other

theorem calls_elsewhere {sock : VoidPtr} (elsewhere : Elsewhere k turn) : (calls s turn).filterMap (sentBy k sock) = [] :=
  shown_elsewhere (fun _ _ other => if_neg fun sent => other sent.1) elsewhere

theorem made_elsewhere (elsewhere : Elsewhere k turn) : (made qt s turn).filterMap (ofWorker k) = [] :=
  shown_elsewhere ofWorker_other elsewhere

/-- Another's turn does not move the worker, but it may start it. -/
theorem position_elsewhere (elsewhere : Elsewhere k turn) (taken : step qt s turn = some s') :
    position k s' = position k s ∨
      (∃ endpoint, s.command = .startThread endpoint) ∧ position k s = none ∧ position k s' = some .socket := by
  have kept : s'.process.workers = s.process.workers → position k s' = position k s := by
    intro same
    rw [position,same,position]
  cases step_operation taken with
  | config | start => exact .inl (kept (by simp))
  | duplicate | subscribe _ | stop | subscribePush | subscribeSocket | subscribeStore | subscribeBind | startFlag
  | stopPass _ | stopLeave _ | stopRead _ | stopClose | stopClear | stopForget => exact .inl rfl
  | @startThread p endpoint answers =>
    rcases Nat.lt_trichotomy k p.workers.length with old | new | beyond
    · refine .inl ?_
      rw [position,position,List.getElem?_append_left old]
    · refine .inr ⟨⟨endpoint,rfl⟩,?_⟩
      subst new
      simp [position]
    · refine .inl ?_
      rw [position,position,List.getElem?_eq_none (Nat.le_of_lt beyond),
        List.getElem?_eq_none (by rw [List.length_append]; exact beyond)]
  | @worker p p' command j input w w' there works =>
    have other : j ≠ k := elsewhere
    have same := congrArg Process.workers (Quiescent.works_frame works).1
    refine .inl ?_
    simp only [position,setWorker,same,List.getElem?_set_ne other]

theorem position_here {p : Process} {command : CommandPc} {w : Worker} (there : p.workers[k]? = some w) :
    position k ⟨p,command⟩ = some w.pc := by
  rw [position,there]
  rfl

theorem position_after {p p' : Process} {command : CommandPc} {input : Input} {w w' : Worker}
    (there : p.workers[k]? = some w) (works : Works p qt input w w' p') :
    position k ⟨setWorker k w' p',command⟩ = some w'.pc := by
  have same := congrArg Process.workers (Quiescent.works_frame works).1
  have inside := (List.getElem?_eq_some_iff.mp there).1
  exact position_here (setWorker_get (by rw [same]; exact inside))

/-- A call is made by a worker that has fetched the socket. -/
theorem calls_sending {call : Nat × Send} (member : call ∈ calls s turn) :
    ∃ w i, s.process.workers[call.1]? = some w ∧ w.pc = .send call.2.data i call.2.socket := by
  cases turn with
  | command c answers | advance answers => cases member
  | worker k input =>
    obtain ⟨send,sending,rfl⟩ := Option.map_eq_some_iff.mp (Option.mem_toList.mp member)
    obtain ⟨pc,here,sends⟩ := Option.bind_eq_some_iff.mp sending
    obtain ⟨w,there,same⟩ := Option.map_eq_some_iff.mp here
    cases pc with
    | send data i sub_sock =>
      cases sends
      exact ⟨w,i,there,same⟩
    | _ => cases sends

/-- The log of zmq_msg_send grows by the calls of the turns. -/
theorem step_sends (taken : step qt s turn = some s') :
    s'.process.zmq.sends = s.process.zmq.sends ++ (calls s turn).map Prod.snd := by
  cases step_operation taken with
  | config | start => simp [calls,shown]
  | subscribeSocket => simp [calls,shown]
  | duplicate | subscribe _ | stop | subscribePush | subscribeStore | subscribeBind | startFlag | startThread
  | stopPass _ | stopLeave _ | stopRead _ | stopClose | stopClear | stopForget => simp [calls,shown,Zmq.zmq_bind,Zmq.zmq_close]
  | worker there works =>
    cases works with
    | socket pc | connect pc | options pc | test pc | timeout pc _ | receive pc _ | handle pc | discard pc | skip pc _
    | enter pc _ | pass pc _ | leave pc _ | fetch pc _ | closePull pc | closeHandler pc =>
      simp [calls,shown,position_here there,pc,setWorker,Zmq.zmq_connect,Zmq.zmq_close]
    | send pc => simp [calls,shown,position_here there,pc,setWorker,Zmq.zmq_msg_send]

end

theorem run_sends {qt : Qt} {s s' : State} {turns : List Turn} (executed : run (step qt) s turns = some s') :
    s'.process.zmq.sends = s.process.zmq.sends ++ (trace (step qt) calls s turns).map Prod.snd := by
  induction turns generalizing s with
  | nil =>
    cases executed
    simp [trace]
  | cons turn rest ih =>
    obtain ⟨u,first,later⟩ := run_cons_some.mp executed
    rw [ih later,step_sends first,trace,first,List.map_append,List.append_assoc]

/-! ### In every interleaving -/

/-- The send loop can still meet the socket at this index or behind it. -/
def Ahead (n : Nat) (s : State) (i : Nat) : Prop :=
  ¬ n < s.process.zmq.created.length ∨ .socket n ∈ held s.command ∨ .socket n ∈ s.process.server.subscribers_sockets.drop i

instance (n : Nat) (s : State) (i : Nat) : Decidable (Ahead n s i) := inferInstanceAs (Decidable (_ ∨ _ ∨ _))

/-- What a worker at this position may still pass to the socket. -/
def mayPass (n : Nat) (s : State) : Option WorkerPc → List (List UInt8)
  | some (.guard (some data)) => [data]
  | some (.loop data i) | some (.fetch data i) => if Ahead n s i then [data] else []
  | some (.send data i sub_sock) => if sub_sock = .socket n ∨ Ahead n s (i + 1) then [data] else []
  | _ => []

/-- The loop has left behind what a worker is about to send on. -/
def Past (n : Nat) (s : State) : Prop :=
  ∀ k data i, position k s = some (.send data i (.socket n)) → ¬ Ahead n s (i + 1)

section
variable {qt : Qt} {s s' : State} {turn : Turn} {n : Nat}

theorem ahead_up {i j : Nat} (le : i ≤ j) (ahead : Ahead n s j) : Ahead n s i := by
  refine ahead.imp_right (Or.imp_right fun later => ?_)
  rw [← Nat.add_sub_of_le le,← List.drop_drop] at later
  exact List.mem_of_mem_drop later

theorem works_created {p p' : Process} {input : Input} {w w' : Worker} (works : Works p qt input w w' p') :
    p.zmq.created.length ≤ p'.zmq.created.length := by
  cases works with
  | socket _ => simp [Zmq.zmq_socket_created]
  | _ => exact Nat.le_refl _

/-- What is no longer ahead never is again. -/
theorem ahead_before {i : Nat} (taken : step qt s turn = some s') (ahead : Ahead n s' i) : Ahead n s i := by
  cases step_operation taken with
  | config | start => simpa [Ahead,held] using ahead
  | duplicate | subscribe _ | subscribePush | subscribeBind | stop | startFlag | startThread | stopPass _ | stopLeave _
  | stopRead _ | stopClose | stopForget => exact ahead
  | @subscribeSocket p endpoint answers =>
    rcases ahead with unmade | held | later
    · refine .inl fun old => unmade ?_
      rw [Zmq.zmq_socket_created,List.length_append]
      exact Nat.lt_add_right _ old
    · refine .inl ?_
      have new := List.mem_singleton.mp held
      rw [Zmq.zmq_socket] at new
      split at new
      · cases new
        exact Nat.lt_irrefl _
      · cases new
    · exact .inr (.inr later)
  | @subscribeStore p endpoint push answers =>
    rcases ahead with unmade | held | later
    · exact .inl unmade
    · cases held
    · rw [List.drop_append] at later
      rcases List.mem_append.mp later with old | new
      · exact .inr (.inr old)
      · exact .inr (.inl (List.mem_of_mem_drop new))
  | stopClear =>
    rcases ahead with unmade | held | later
    · exact .inl unmade
    · cases held
    · rw [List.drop_nil] at later
      cases later
  | @worker p p' command k input w w' there works =>
    have server := congrArg Process.server (Quiescent.works_frame works).1
    have grown := works_created works
    rcases ahead with unmade | held | later
    · exact .inl fun old => unmade (Nat.lt_of_lt_of_le old grown)
    · exact .inr (.inl held)
    · refine .inr (.inr ?_)
      have same : p'.server.subscribers_sockets = p.server.subscribers_sockets := congrArg _ server
      rw [← same]
      exact later

theorem mayPass_before (taken : step qt s turn = some s') (pc : Option WorkerPc) :
    (mayPass n s' pc).Sublist (mayPass n s pc) := by
  have shrinks : ∀ (P Q : Prop) [Decidable P] [Decidable Q] (data : List UInt8), (P → Q) →
      (if P then [data] else []).Sublist (if Q then [data] else []) := by
    intro P Q _ _ data imp
    by_cases holds : P
    · rw [if_pos holds,if_pos (imp holds)]
    · rw [if_neg holds]
      exact List.nil_sublist _
  unfold mayPass
  split
  · exact List.Sublist.refl _
  · exact shrinks _ _ _ (ahead_before taken)
  · exact shrinks _ _ _ (ahead_before taken)
  · exact shrinks _ _ _ (Or.imp_right (ahead_before taken))
  · exact List.Sublist.refl _

/-- What a worker passes in its turn and may pass after it, it may pass before it or makes
    in it. -/
theorem works_passes {p p' : Process} {command : CommandPc} {k : Nat} {input : Input} {w w' : Worker}
    (past : Past n ⟨p,command⟩) (there : p.workers[k]? = some w) (works : Works p qt input w w' p') :
    ((calls ⟨p,command⟩ (.worker k input)).filterMap (sentBy k (.socket n)) ++ mayPass n ⟨p,command⟩ (some w'.pc)).Sublist
      (mayPass n ⟨p,command⟩ (some w.pc) ++ (made qt ⟨p,command⟩ (.worker k input)).filterMap (ofWorker k)) := by
  have here : position k ⟨p,command⟩ = some w.pc := position_here there
  cases works with
  | socket pc | connect pc | options pc | timeout pc _ | receive pc _ | discard pc | skip pc _ | closePull pc
  | closeHandler pc =>
    simp [calls,made,shown,here,pc,mayPass]
  | test pc =>
    cases p._stop <;> simp [calls,made,shown,here,pc,mayPass]
  | handle pc => simp [calls,made,shown,here,pc,mayPass,ofWorker]
  | @enter data pc nonempty =>
    simp only [calls,made,shown,here,pc,mayPass,Option.bind_some,Option.map_none,Option.toList_none,List.filterMap_nil,
      List.append_nil,List.nil_append]
    split <;> simp
  | pass pc inside => simp [calls,made,shown,here,pc,mayPass]
  | leave pc beyond => simp [calls,made,shown,here,pc,mayPass]
  | @fetch data i sub_sock pc found =>
    simp only [calls,made,shown,here,pc,mayPass,Option.bind_some,Option.map_none,Option.toList_none,List.filterMap_nil,
      List.append_nil,List.nil_append]
    by_cases later : sub_sock = .socket n ∨ Ahead n ⟨p,command⟩ (i + 1)
    · have ahead : Ahead n ⟨p,command⟩ i := by
        rcases later with rfl | later
        · refine .inr (.inr (List.mem_of_getElem? (i := 0) ?_))
          rw [List.getElem?_drop]
          exact found
        · exact ahead_up (Nat.le_succ i) later
      rw [if_pos later,if_pos ahead]
    · rw [if_neg later]
      exact List.nil_sublist _
  | @send data i sub_sock pc =>
    simp only [calls,made,shown,here,pc,mayPass,Option.bind_some,Option.map_some,Option.map_none,Option.toList_some,
      Option.toList_none,List.filterMap_cons,List.filterMap_nil,List.append_nil,sentBy,true_and]
    by_cases now : sub_sock = .socket n
    · subst now
      have passed : ¬ Ahead n ⟨p,command⟩ (i + 1) := past k data i (by rw [here,pc])
      simp [passed]
    · simp [now]

/-- A turn is worker `k`'s or not. -/
theorem elsewhere_or (k : Nat) (turn : Turn) : Elsewhere k turn ∨ ∃ input, turn = .worker k input := by
  cases turn with
  | command _ _ | advance _ => exact .inl trivial
  | worker j input =>
    by_cases here : j = k
    · exact .inr ⟨input,by rw [here]⟩
    · exact .inl here

theorem step_passes {k : Nat} (past : Past n s) (taken : step qt s turn = some s') :
    ((calls s turn).filterMap (sentBy k (.socket n)) ++ mayPass n s' (position k s')).Sublist
      (mayPass n s (position k s) ++ (made qt s turn).filterMap (ofWorker k)) := by
  have shrunk : (mayPass n s' (position k s')).Sublist (mayPass n s (position k s')) := mayPass_before taken _
  rcases elsewhere_or k turn with elsewhere | ⟨input,rfl⟩
  · rw [calls_elsewhere elsewhere,made_elsewhere elsewhere,List.append_nil,List.nil_append]
    rcases position_elsewhere elsewhere taken with same | ⟨-,-,started⟩
    · rw [same] at shrunk ⊢
      exact shrunk
    · rw [started]
      exact List.nil_sublist _
  · cases step_operation taken with
    | @worker p p' command _ _ w w' there works =>
      rw [position_here there]
      rw [position_after there works] at shrunk ⊢
      exact ((List.Sublist.refl _).append shrunk).trans (works_passes past there works)

/-- A pointer that is fetched from the vector stands nowhere behind it. -/
theorem fetched_past {i : Nat} (owned : Owned s) (pointers : Races.Pointers s)
    (found : s.process.server.subscribers_sockets[i]? = some (.socket n)) : ¬ Ahead n s (i + 1) := by
  have member := List.mem_of_getElem? found
  have inside := (List.getElem?_eq_some_iff.mp found).1
  have once := owned.single n
  have occurs := List.count_pos_iff.mpr member
  rintro (unmade | kept | later)
  · exact unmade (Zmq.created_lt (pointers.pushes _ (.inl member) (by simp)))
  · -- Subscribe holds a socket that is in the vector already.
    have account := owned.account n
    have most : present s.process.zmq n ≤ 1 := by
      rw [present]
      split <;> decide
    have twice := List.count_pos_iff.mpr kept
    have lefts : left s = s.process.server.subscribers_sockets := by
      unfold left
      split <;> rename_i command <;> simp [held,command] at kept ⊢
    rw [owners,lefts] at account
    omega
  · have here := List.getElem?_eq_some_iff.mp found
    have split : s.process.server.subscribers_sockets.drop i =
        .socket n :: s.process.server.subscribers_sockets.drop (i + 1) := by
      rw [List.drop_eq_getElem_cons inside,here.2]
    have again := List.count_pos_iff.mpr later
    have most := (List.drop_sublist i s.process.server.subscribers_sockets).count_le (.socket n)
    rw [split,List.count_cons_self] at most
    omega

/-- A worker that is about to send on a socket was so before the turn or has fetched it there. -/
theorem fetched_or {k i : Nat} {data : List UInt8} {sub_sock : VoidPtr}
    (sending : position k s' = some (.send data i sub_sock)) (taken : step qt s turn = some s') :
    position k s = some (.send data i sub_sock) ∨ s.process.server.subscribers_sockets[i]? = some sub_sock := by
  rcases elsewhere_or k turn with elsewhere | ⟨input,rfl⟩
  · rcases position_elsewhere elsewhere taken with same | ⟨-,-,started⟩
    · exact .inl (same ▸ sending)
    · rw [started] at sending
      cases sending
  · cases step_operation taken with
    | worker there works =>
      rw [position_after there works] at sending
      cases works with
      | fetch pc found =>
        cases sending
        exact .inr found
      | test pc =>
        dsimp only at sending
        split at sending <;> cases sending
      | _ => cases sending

theorem step_past (owned : Owned s) (pointers : Races.Pointers s) (past : Past n s) (taken : step qt s turn = some s') :
    Past n s' := by
  intro k data i sending ahead
  have before := ahead_before taken ahead
  rcases fetched_or sending taken with same | found
  · exact past k data i same before
  · exact fetched_past owned pointers found before

/-- The sockets are kept in one place each, and the send loop has left behind what it sends on. -/
structure Ordered (n : Nat) (s : State) : Prop where
  owned : Owned s
  pointers : Races.Pointers s
  past : Past n s

theorem step_ordered (ordered : Ordered n s) (taken : step qt s turn = some s') : Ordered n s' := by
  obtain ⟨owned,pointers,past⟩ := ordered
  exact ⟨step_owned owned taken,Races.step_pointers pointers (step_effect taken),step_past owned pointers past taken⟩

theorem construct_ordered (n m_handler : Nat) (addr : { a : Nat // 0 < a }) : Ordered n (whole (construct m_handler addr)) :=
  ⟨construct_owned m_handler addr,(Races.construct_pointers m_handler addr).1,nofun⟩

/-- What a worker passes to the socket, and may pass after the run, it may pass before it or makes in it. -/
theorem run_passes {turns : List Turn} (ordered : Ordered n s) (executed : run (step qt) s turns = some s') (k : Nat) :
    ((trace (step qt) calls s turns).filterMap (sentBy k (.socket n)) ++ mayPass n s' (position k s')).Sublist
      (mayPass n s (position k s) ++ (trace (step qt) (made qt) s turns).filterMap (ofWorker k)) := by
  rw [trace_filterMap,trace_filterMap]
  exact run_balanced appends_sublist (fun s => mayPass n s (position k s)) (fun _ _ _ ordered _ => step_ordered ordered)
    (fun _ _ _ ordered _ taken => step_passes ordered.past taken) ordered (meets_of_forall (fun _ _ _ => trivial) _) executed

end

/-- In every interleaving zmq_msg_send is called by worker `k` on a socket at most once for each message
    that the worker makes, in the order in which it makes them. -/
theorem at_most_once (qt : Qt) (m_handler : Nat) (addr : { a : Nat // 0 < a }) (turns : List Turn) (s : State)
    (executed : run (step qt) (whole (construct m_handler addr)) turns = some s) (k n : Nat) :
    s.process.zmq.sends = (trace (step qt) calls (whole (construct m_handler addr)) turns).map Prod.snd ∧
      ((trace (step qt) calls (whole (construct m_handler addr)) turns).filterMap (sentBy k (.socket n))).Sublist
        ((trace (step qt) (made qt) (whole (construct m_handler addr)) turns).filterMap (ofWorker k)) := by
  refine ⟨run_sends executed,?_⟩
  exact (List.sublist_append_left _ _).trans (run_passes (construct_ordered n m_handler addr) executed k)

/-- A message is sent, and a stop overtakes the worker before it tests the next index. -/
def untilStopped : List Turn :=
  Races.untilFetch ++ List.replicate 2 (.worker 0 (.granted none)) ++
    .command .stop .granted :: List.replicate 6 (.advance .granted) ++ [.worker 0 (.granted none)]

theorem at_most_once_stopped : ∃ s,
    run (step (.table [])) (whole (construct 0 ⟨1,Nat.one_pos⟩)) untilStopped = some s ∧ s.process.zmq.sends.length = 1 ∧
    ((trace (step (.table [])) calls (whole (construct 0 ⟨1,Nat.one_pos⟩)) untilStopped).filterMap
      (sentBy 0 (.socket 0))).Sublist
        ((trace (step (.table [])) (made (.table [])) (whole (construct 0 ⟨1,Nat.one_pos⟩)) untilStopped).filterMap
          (ofWorker 0)) :=
  ⟨_,rfl,rfl,(at_most_once (.table []) 0 ⟨1,Nat.one_pos⟩ untilStopped _ rfl 0 0).2⟩

/-! ### As long as the vector is not cleared -/

/-- A worker at this position has made a message and not passed it to every subscriber. -/
def Broadcasting : Option WorkerPc → Prop
  | some (.guard _) | some (.loop _ _) | some (.fetch _ _) | some (.send _ _ _) => True
  | _ => False

/-- What a worker at this position will pass to the socket. -/
def mustPass (n : Nat) (s : State) : Option WorkerPc → List (List UInt8)
  | some (.guard (some data)) => [data]
  | some (.loop data i) | some (.fetch data i) | some (.send data i _) =>
    if .socket n ∈ s.process.server.subscribers_sockets.drop i then [data] else []
  | _ => []

/-- The turn is not the one in which stop clears the vector. -/
def Uncleared (s : State) : Turn → Prop
  | .advance _ => s.command ≠ .stopClear
  | _ => True

/-- The socket is in the vector, and worker `k` sends on what is there. -/
structure Steady (k n : Nat) (s : State) : Prop where
  owned : Owned s
  listed : .socket n ∈ s.process.server.subscribers_sockets
  fetched : ∀ data i sub_sock, position k s = some (.send data i sub_sock) →
    s.process.server.subscribers_sockets[i]? = some sub_sock

section
variable {qt : Qt} {s s' : State} {turn : Turn} {k n : Nat}

theorem vector_grows (uncleared : Uncleared s turn) (taken : step qt s turn = some s') :
    ∃ new, s'.process.server.subscribers_sockets = s.process.server.subscribers_sockets ++ new := by
  cases step_operation taken with
  | config | start => exact ⟨[],by simp⟩
  | duplicate | subscribe _ | stop | subscribePush | subscribeSocket | subscribeBind | startFlag | startThread
  | stopPass _ | stopLeave _ | stopRead _ | stopClose | stopForget => exact ⟨[],(List.append_nil _).symm⟩
  | subscribeStore => exact ⟨_,rfl⟩
  | stopClear => exact absurd rfl uncleared
  | @worker p p' command j input w w' there works =>
    have same := congrArg Process.server (Quiescent.works_frame works).1
    refine ⟨[],?_⟩
    rw [List.append_nil]
    exact congrArg TcpServer.subscribers_sockets same

/-- A new subscriber is another one, so that the send loop meets the socket where it did. -/
theorem mustPass_before (steady : Steady k n s) (uncleared : Uncleared s turn) (taken : step qt s turn = some s')
    (pc : Option WorkerPc) : mustPass n s' pc = mustPass n s pc := by
  obtain ⟨new,grown⟩ := vector_grows uncleared taken
  have other : .socket n ∉ new := by
    intro again
    have once := (step_owned steady.owned taken).single n
    have old := List.count_pos_iff.mpr steady.listed
    have twice := List.count_pos_iff.mpr again
    rw [grown,List.count_append] at once
    omega
  have same : ∀ i, .socket n ∈ s'.process.server.subscribers_sockets.drop i ↔
      .socket n ∈ s.process.server.subscribers_sockets.drop i := by
    intro i
    rw [grown,List.drop_append,List.mem_append]
    constructor
    · rintro (old | later)
      · exact old
      · exact absurd (List.mem_of_mem_drop later) other
    · exact .inl
  unfold mustPass
  split <;> simp only [same]

theorem works_must {p p' : Process} {command : CommandPc} {input : Input} {w w' : Worker}
    (steady : Steady k n ⟨p,command⟩) (there : p.workers[k]? = some w) (works : Works p qt input w w' p') :
    (calls ⟨p,command⟩ (.worker k input)).filterMap (sentBy k (.socket n)) ++ mustPass n ⟨p,command⟩ (some w'.pc) =
      mustPass n ⟨p,command⟩ (some w.pc) ++ (made qt ⟨p,command⟩ (.worker k input)).filterMap (ofWorker k) := by
  have here : position k ⟨p,command⟩ = some w.pc := position_here there
  have listed : .socket n ∈ p.server.subscribers_sockets := steady.listed
  cases works with
  | socket pc | connect pc | options pc | timeout pc _ | receive pc _ | discard pc | closePull pc | closeHandler pc =>
    simp [calls,made,shown,here,pc,mustPass]
  | test pc => cases p._stop <;> simp [calls,made,shown,here,pc,mustPass]
  | handle pc => simp [calls,made,shown,here,pc,mustPass,ofWorker]
  | skip pc empty =>
    rw [empty] at listed
    cases listed
  | enter pc nonempty => simp [calls,made,shown,here,pc,mustPass,listed]
  | pass pc inside => simp [calls,made,shown,here,pc,mustPass]
  | leave pc beyond =>
    have rest := List.drop_eq_nil_of_le (Nat.le_of_not_lt beyond)
    simp [calls,made,shown,here,pc,mustPass,rest]
  | fetch pc found => simp [calls,made,shown,here,pc,mustPass]
  | @send data i sub_sock pc =>
    obtain ⟨inside,there⟩ := List.getElem?_eq_some_iff.mp (steady.fetched data i sub_sock (by rw [here,pc]))
    change i < p.server.subscribers_sockets.length at inside
    have split : p.server.subscribers_sockets.drop i = sub_sock :: p.server.subscribers_sockets.drop (i + 1) := by
      rw [List.drop_eq_getElem_cons inside]
      exact congrArg (· :: _) there
    simp only [calls,made,shown,here,pc,mustPass,Option.bind_some,Option.map_some,Option.map_none,Option.toList_some,
      Option.toList_none,sentBy,split,List.filterMap_cons,List.filterMap_nil,List.append_nil,true_and,List.mem_cons]
    by_cases now : sub_sock = .socket n
    · subst now
      have once := steady.owned.single n
      have most := (List.drop_sublist i p.server.subscribers_sockets).count_le (.socket n)
      rw [split,List.count_cons_self] at most
      have passed : .socket n ∉ p.server.subscribers_sockets.drop (i + 1) := by
        intro later
        have again := List.count_pos_iff.mpr later
        change p.server.subscribers_sockets.count (.socket n) ≤ 1 at once
        omega
      simp [passed]
    · have other : ¬ VoidPtr.socket n = sub_sock := fun same => now same.symm
      simp [now,other]

theorem step_must (steady : Steady k n s) (uncleared : Uncleared s turn) (taken : step qt s turn = some s') :
    (calls s turn).filterMap (sentBy k (.socket n)) ++ mustPass n s' (position k s') =
      mustPass n s (position k s) ++ (made qt s turn).filterMap (ofWorker k) := by
  rw [mustPass_before steady uncleared taken]
  rcases elsewhere_or k turn with elsewhere | ⟨input,rfl⟩
  · rw [calls_elsewhere elsewhere,made_elsewhere elsewhere,List.append_nil,List.nil_append]
    rcases position_elsewhere elsewhere taken with same | ⟨-,absent,started⟩
    · rw [same]
    · rw [started,absent]
      rfl
  · cases step_operation taken with
    | worker there works =>
      rw [position_here there,position_after there works]
      exact works_must steady there works

theorem step_steady (steady : Steady k n s) (uncleared : Uncleared s turn) (taken : step qt s turn = some s') :
    Steady k n s' := by
  obtain ⟨new,grown⟩ := vector_grows uncleared taken
  refine ⟨step_owned steady.owned taken,?_,?_⟩
  · rw [grown]
    exact List.mem_append_left _ steady.listed
  · intro data i sub_sock sending
    have found : s.process.server.subscribers_sockets[i]? = some sub_sock :=
      (fetched_or sending taken).elim (steady.fetched data i sub_sock) id
    rw [grown,List.getElem?_append_left (List.getElem?_eq_some_iff.mp found).1]
    exact found

end

theorem mustPass_length (n : Nat) (s : State) (pc : Option WorkerPc) : (mustPass n s pc).length ≤ 1 := by
  unfold mustPass
  split
  · exact Nat.le_refl 1
  · split <;> simp
  · split <;> simp
  · split <;> simp
  · exact Nat.zero_le 1

theorem mustPass_outside {n : Nat} {s : State} {pc : Option WorkerPc} (outside : ¬ Broadcasting pc) :
    mustPass n s pc = [] := by
  unfold mustPass
  split
  · exact absurd trivial outside
  · exact absurd trivial outside
  · exact absurd trivial outside
  · exact absurd trivial outside
  · rfl

/-- From any state in which worker `k` is outside a broadcast, as long as stop does not clear the vector, the
    worker calls zmq_msg_send exactly once for each message that it makes on each socket that is there
    from the beginning, whatever subscribers are added meanwhile; but for the last message if its
    broadcast is not over. -/
theorem exactly_once (qt : Qt) (m_handler : Nat) (addr : { a : Nat // 0 < a }) (before after : List Turn) (s s' : State)
    (reached : run (step qt) (whole (construct m_handler addr)) before = some s) (k : Nat)
    (outside : ¬ Broadcasting (position k s)) (uncleared : Meets (step qt) Uncleared s after)
    (executed : run (step qt) s after = some s') (n : Nat)
    (listed : .socket n ∈ s.process.server.subscribers_sockets) :
    ∃ pending, (trace (step qt) (made qt) s after).filterMap (ofWorker k) =
        (trace (step qt) calls s after).filterMap (sentBy k (.socket n)) ++ pending ∧
      pending.length ≤ 1 ∧ (¬ Broadcasting (position k s') → pending = []) := by
  have owned := run_owned (construct_owned m_handler addr) reached
  have steady : Steady k n s := ⟨owned,listed,fun data i sub_sock sending => absurd (by rw [sending]; trivial) outside⟩
  have balanced := run_balanced appends_eq (fun s => mustPass n s (position k s))
    (fun _ _ _ => step_steady) (fun _ _ _ => step_must) steady uncleared executed
  rw [mustPass_outside outside,List.nil_append,← trace_filterMap,← trace_filterMap] at balanced
  exact ⟨_,balanced.symm,mustPass_length n s' _,mustPass_outside⟩

/-- A worker makes a message, another subscriber is added before its first zmq_msg_send, and the
    message is sent to both. -/
def acrossSubscribe : List Turn :=
  List.replicate 9 (.worker 0 (.granted (some (data_frame.write ⟨none,none⟩)))) ++
    .command (.subscribe [(key "endpoint",.string (key "tcp://*:2"))]) .granted :: List.replicate 4 (.advance .granted) ++
    List.replicate 5 (.worker 0 (.granted none))

theorem exactly_once_across_subscribe : ∃ s s',
    run (step (.table [])) (whole (construct 0 ⟨1,Nat.one_pos⟩)) (Races.untilFetch.take 8) = some s ∧
    run (step (.table [])) s acrossSubscribe = some s' ∧ s'.process.zmq.sends.map Send.socket = [.socket 0,.socket 2] ∧
    (trace (step (.table [])) (made (.table [])) s acrossSubscribe).filterMap (ofWorker 0) =
      (trace (step (.table [])) calls s acrossSubscribe).filterMap (sentBy 0 (.socket 0)) := by
  have exact_once := exactly_once (.table []) 0 ⟨1,Nat.one_pos⟩ (Races.untilFetch.take 8) acrossSubscribe _ _ rfl 0 id
    ?_ rfl 0 (by decide)
  · obtain ⟨pending,balanced,-,ended⟩ := exact_once
    rw [ended id,List.append_nil] at balanced
    exact ⟨_,_,rfl,rfl,rfl,balanced⟩
  · iterate 10 refine meets_cons trivial rfl ?_
    iterate 4 refine meets_cons nofun rfl ?_
    exact meets_of_forall (fun turn member _ => by rw [List.eq_of_mem_replicate (n := 5) member]; trivial) _

end ZmqOut.Lanes
