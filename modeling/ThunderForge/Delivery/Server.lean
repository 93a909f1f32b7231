import ThunderForge.Delivery.Lost
import ThunderForge.Delivery.Subscribers

/-! From the table to the subscribers: the loop hands what it took in to the router, one row at a time, while
transactions end and subscribers come, read and leave. -/

namespace ThunderForge.Delivery

open Broadcast (Covers)

/-- The delivery loop with its sink; `outbox` is what it took in and has not handed over yet, `dropped` counts the rows
that reached nobody. -/
structure Server where
  backplane : Backplane
  outbox : List WorldEvent
  audience : Audience WorldEvent
  dropped : Nat

/-- What happens on the server. -/
inductive Server.Act
  | backplane (a : Action)
  | publish
  | subscribe (handle : Nat) (worldId : Uuid)
  | recv (handle : Nat)
  | leave (handle : Nat)
  | reap

/-- Whether the loop is ready for a step of its own: it hands over all it took in before it polls again. -/
def Server.ready (s : Server) : Action → Bool
  | .fetch => s.outbox.isEmpty
  | _ => true

/-- `RouterSink::publish`, for the next row. -/
def Server.publishNext (s : Server) (row : WorldEvent) (rest : List WorldEvent) : Server :=
  { s with
    outbox := rest,
    audience := s.audience.step (.publish row.worldId row),
    dropped := if (s.audience.router.publish row.worldId row).2 = 0 then s.dropped + 1 else s.dropped }

def Server.step (s : Server) : Server.Act → Server
  | .backplane a =>
      if s.ready a then
        { s with
          backplane := s.backplane.step a,
          outbox := s.outbox ++ (s.backplane.step a).broadcast.drop s.backplane.broadcast.length }
      else s
  | .publish =>
      match s.outbox with
      | [] => s
      | row :: rest => s.publishNext row rest
  | .subscribe handle worldId => { s with audience := s.audience.step (.subscribe handle worldId) }
  | .recv handle => { s with audience := s.audience.step (.recv handle) }
  | .leave handle => { s with audience := s.audience.step (.leave handle) }
  | .reap => { s with audience := s.audience.step .reap }

def Server.boot (clock : NaiveDateTime) (nextId : Int) (table : List WorldEvent) : Server :=
  { backplane := .boot clock nextId table, outbox := [], audience := .empty, dropped := 0 }

/-- A row as the router has it: with its world. -/
def routed (row : WorldEvent) : Uuid × WorldEvent := (row.worldId, row)

/-- What was taken in was published in that order or is still to be; subscribers follow what was published. -/
structure Server.Sound (s : Server) : Prop where
  backplane : s.backplane.Sound
  audience : s.audience.Attends
  published : s.audience.published ++ s.outbox.map routed = s.backplane.broadcast.map routed

section

variable {s : Server}

theorem broadcast_prefix (s : Backplane) (a : Action) : s.broadcast <+: (s.step a).broadcast := by
  cases heard_step s a with
  | quiet _ hsame => exact hsame ▸ List.prefix_rfl
  | starts _ _ _ _ _ _ hsame => exact hsame ▸ List.prefix_rfl
  | fetches _ _ _ _ hsame => exact hsame ▸ List.prefix_rfl
  | absorbs _ _ _ _ _ hadded => exact hadded ▸ List.prefix_append _ _
  | drops _ _ _ _ _ _ hsame => exact hsame ▸ List.prefix_rfl

theorem published_step (s : Audience WorldEvent) (act : Fanout WorldEvent)
    (hact : ∀ worldId event, act ≠ .publish worldId event) : (s.step act).published = s.published := by
  cases act with
  | subscribe handle worldId =>
      unfold Audience.step
      dsimp only
      split_ifs <;> rfl
  | publish worldId event => exact absurd rfl (hact worldId event)
  | recv handle =>
      unfold Audience.step
      dsimp only
      split <;> rfl
  | leave handle => rfl
  | reap => rfl

theorem Server.Sound.step (h : s.Sound) (act : Server.Act) : (s.step act).Sound := by
  have hquiet (fanout : Fanout WorldEvent) (hfanout : ∀ worldId event, fanout ≠ .publish worldId event) :
      ({ s with audience := s.audience.step fanout } : Server).Sound :=
    ⟨h.backplane, h.audience.step fanout, (published_step s.audience fanout hfanout).symm ▸ h.published⟩
  cases act with
  | backplane a =>
      unfold Server.step
      dsimp only
      split_ifs
      · refine ⟨h.backplane.step a, h.audience, ?_⟩
        obtain ⟨added, hadded⟩ := broadcast_prefix s.backplane a
        rw [← hadded, List.drop_left, List.map_append, List.map_append, ← List.append_assoc, h.published]
      · exact h
  | publish =>
      unfold Server.step
      dsimp only
      split
      · exact h
      · rename_i row rest hout
        refine ⟨h.backplane, h.audience.step (.publish row.worldId row), ?_⟩
        show (s.audience.published ++ [(row.worldId, row)]) ++ rest.map routed = s.backplane.broadcast.map routed
        rw [← h.published, hout, List.append_assoc]
        rfl
  | subscribe handle worldId => exact hquiet _ (by rintro _ _ ⟨⟩)
  | recv handle => exact hquiet _ (by rintro _ _ ⟨⟩)
  | leave handle => exact hquiet _ (by rintro _ _ ⟨⟩)
  | reap => exact hquiet _ (by rintro _ _ ⟨⟩)

theorem Server.Sound.run (h : s.Sound) (acts : List Server.Act) : (Run.run Server.step s acts).Sound :=
  Run.invariant (I := Server.Sound) (fun _ act h => h.step act) h acts

theorem Server.read_step (s : Server) (act : Server.Act) {row : WorldEvent}
    (h : (s.step act).backplane.Read row) : s.backplane.Read row ∨ row ∈ s.backplane.table := by
  cases act with
  | backplane a =>
      unfold Server.step at h
      dsimp only at h
      split_ifs at h
      · exact Delivery.read_step s.backplane a h
      · exact Or.inl h
  | publish =>
      unfold Server.step at h
      dsimp only at h
      split at h <;> exact Or.inl h
  | _ => exact Or.inl h

/-- What a subscriber is due is some of what was broadcast, in that order. -/
theorem Server.Sound.due_sublist (h : s.Sound) (receiver : Receiver) :
    (s.audience.due receiver).Sublist (s.backplane.broadcast.filter fun row => row.worldId = receiver.worldId) := by
  have hprefix : s.audience.published <+: s.backplane.broadcast.map routed := ⟨_, h.published⟩
  have hfilter : (s.backplane.broadcast.map routed).filter (fun entry => entry.1 = receiver.worldId) =
      (s.backplane.broadcast.filter fun row => row.worldId = receiver.worldId).map routed := by
    rw [List.filter_map]
    rfl
  have hdue : (s.audience.due receiver).Sublist
      (((s.backplane.broadcast.map routed).filter fun entry => entry.1 = receiver.worldId).map Prod.snd) :=
    (((List.drop_sublist _ _).trans hprefix.sublist).filter _).map _
  rw [hfilter, List.map_map] at hdue
  exact (List.map_id (s.backplane.broadcast.filter fun row => row.worldId = receiver.worldId)) ▸ hdue

end

/-- An event from its transaction to the subscriber of its world. -/
def throughout : List Server.Act :=
  [.subscribe 0 7, .backplane (.highWater .answered), .backplane (.insert 1 7 0 none 0), .backplane (.commit 1),
    .backplane .fetch, .backplane .absorb, .publish, .recv 0]

end ThunderForge.Delivery
