import ZmqOut.Runs

/-!
A hub that passes every message on to the lanes that have joined it. A lane that
joins once receives exactly what is published from then until the hub is reset,
in that order, whatever happens on the other lanes.
-/
namespace ZmqOut.Broadcast
open ZmqOut.Runs
universe u v
variable {Lane : Type u} {Message : Type v}

inductive Op (Lane : Type u) (Message : Type v) where
  | join (lane : Lane)
  | publish (message : Message)
  | reset

/-- The lanes that have joined since the last reset, and all that each lane received. -/
structure Hub (Lane : Type u) (Message : Type v) where
  live : List Lane
  received : Lane → List Message

/-- The messages published before the first reset. -/
def published : List (Op Lane Message) → List Message
  | [] => []
  | .join _ :: rest => published rest
  | .publish message :: rest => message :: published rest
  | .reset :: _ => []

theorem published_publish (messages : List Message) (ops : List (Op Lane Message)) :
    published (messages.map .publish ++ ops) = messages ++ published ops := by
  induction messages with
  | nil => rfl
  | cons message rest ih => rw [List.map_cons,List.cons_append,published,ih,List.cons_append]

namespace Hub

def join (lane : Lane) (hub : Hub Lane Message) : Hub Lane Message := { hub with live := hub.live ++ [lane] }

/-- A lane receives a message once for each time that it joined. -/
def publish [DecidableEq Lane] (message : Message) (hub : Hub Lane Message) : Hub Lane Message :=
  { hub with received := fun lane => hub.received lane ++ List.replicate (hub.live.count lane) message }

def reset (hub : Hub Lane Message) : Hub Lane Message := { hub with live := [] }

def step [DecidableEq Lane] (hub : Hub Lane Message) : Op Lane Message → Option (Hub Lane Message)
  | .join lane => some (hub.join lane)
  | .publish message => some (hub.publish message)
  | .reset => some hub.reset

end Hub

section
variable [DecidableEq Lane] {hub hub' : Hub Lane Message} {ops : List (Op Lane Message)} {lane : Lane}

/-- A lane that is not live and does not join receives nothing. -/
theorem received_apart (apart : lane ∉ hub.live) (absent : .join lane ∉ ops)
    (executed : run Hub.step hub ops = some hub') : hub'.received lane = hub.received lane := by
  induction ops generalizing hub with
  | nil => cases executed; rfl
  | cons op rest ih =>
    obtain ⟨next,taken,later⟩ := run_cons_some.mp executed
    have never : .join lane ∉ rest := fun member => absent (List.mem_cons_of_mem op member)
    cases op with
    | join other =>
      cases taken
      refine @ih (hub.join other) ?_ never later
      intro member
      rcases List.mem_append.mp member with old | new
      · exact apart old
      · rw [List.mem_singleton] at new
        subst new
        exact absent List.mem_cons_self
    | publish message =>
      cases taken
      rw [@ih (hub.publish message) apart never later]
      simp [Hub.publish,List.count_eq_zero_of_not_mem apart]
    | reset =>
      cases taken
      exact @ih hub.reset List.not_mem_nil never later

/-- A lane that is live once and does not join again receives what is published
    before the next reset. -/
theorem received_live (joined : hub.live.count lane = 1) (absent : .join lane ∉ ops)
    (executed : run Hub.step hub ops = some hub') :
    hub'.received lane = hub.received lane ++ published ops := by
  induction ops generalizing hub with
  | nil => cases executed; simp [published]
  | cons op rest ih =>
    obtain ⟨next,taken,later⟩ := run_cons_some.mp executed
    have never : .join lane ∉ rest := fun member => absent (List.mem_cons_of_mem op member)
    cases op with
    | join other =>
      cases taken
      have distinct : other ≠ lane := by
        rintro rfl
        exact absent List.mem_cons_self
      exact @ih (hub.join other) (by simp [Hub.join,joined,distinct]) never later
    | publish message =>
      cases taken
      rw [@ih (hub.publish message) joined never later]
      simp [Hub.publish,joined,published]
    | reset =>
      cases taken
      rw [@received_apart _ _ _ hub.reset _ _ _ List.not_mem_nil never later]
      simp [Hub.reset,published]

end
end ZmqOut.Broadcast
