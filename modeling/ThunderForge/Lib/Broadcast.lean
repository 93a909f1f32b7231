import Mathlib

/-! A channel that keeps the values last sent, up to its capacity, for any number of receivers, each of which reads from
where it stands. A receiver that has fallen behind what is kept is told how many values it missed and goes on with
the oldest that is kept: what it is told accounts for all that was sent, in order. -/

namespace Broadcast

variable {α : Type*}

/-- The values kept, oldest first, and how many were ever sent. -/
structure Channel (α : Type*) where
  kept : List α
  sent : Nat

def Channel.empty : Channel α := { kept := [], sent := 0 }

/-- What a receiver is told. -/
inductive Received (α : Type*)
  | value (v : α)
  | lagged (missed : Nat)
  | nothing

/-- The value that was told, if one was. -/
def Received.value? : Received α → Option α
  | value v => some v
  | lagged _ => none
  | nothing => none

/-- How many values it tells were missed. -/
def Received.missed : Received α → Nat
  | value _ => 0
  | lagged missed => missed
  | nothing => 0

/-- The oldest position that is kept. -/
def Channel.oldest (channel : Channel α) : Nat := channel.sent - channel.kept.length

def Channel.send (capacity : Nat) (channel : Channel α) (v : α) : Channel α :=
  { kept := (channel.kept ++ [v]).drop (channel.kept.length + 1 - capacity), sent := channel.sent + 1 }

/-- What a receiver at a position is told, and where it stands then. -/
def Channel.recv (channel : Channel α) (next : Nat) : Received α × Nat :=
  if next < channel.oldest then (.lagged (channel.oldest - next), channel.oldest)
  else
    match channel.kept[next - channel.oldest]? with
    | some v => (.value v, next + 1)
    | none => (.nothing, next)

/-- The channel keeps the end of the log of all that was sent. -/
structure Channel.Keeps (channel : Channel α) (log : List α) : Prop where
  sent : channel.sent = log.length
  kept : channel.kept = log.drop channel.oldest

theorem Channel.keeps_empty : (Channel.empty : Channel α).Keeps [] := ⟨rfl, rfl⟩

theorem Channel.Keeps.send {channel : Channel α} {log : List α} (h : channel.Keeps log) (capacity : Nat) (v : α) :
    (channel.send capacity v).Keeps (log ++ [v]) := by
  have hlength : channel.kept.length = log.length - channel.oldest := by rw [h.kept, List.length_drop]
  have holdest : channel.oldest = log.length - channel.kept.length := by rw [Channel.oldest, h.sent]
  have hle : channel.kept.length ≤ log.length := by omega
  have hdrop : (channel.kept ++ [v]) = (log ++ [v]).drop channel.oldest := by
    rw [List.drop_append_of_le_length (by omega), ← h.kept]
  have hnext : (channel.send capacity v).oldest = channel.oldest + (channel.kept.length + 1 - capacity) := by
    show channel.sent + 1 - ((channel.kept ++ [v]).drop (channel.kept.length + 1 - capacity)).length = _
    rw [List.length_drop, List.length_append, List.length_singleton, h.sent]
    omega
  refine ⟨?_, ?_⟩
  · rw [List.length_append, List.length_singleton, ← h.sent]
    rfl
  · rw [hnext, ← List.drop_drop, ← hdrop]
    rfl

/-- The channel keeps as much as it may. -/
def Channel.Full (capacity : Nat) (channel : Channel α) : Prop := channel.kept.length = min channel.sent capacity

theorem Channel.Full.send {capacity : Nat} {channel : Channel α} (h : channel.Full capacity) (v : α) :
    (channel.send capacity v).Full capacity := by
  show ((channel.kept ++ [v]).drop (channel.kept.length + 1 - capacity)).length = min (channel.sent + 1) capacity
  rw [List.length_drop, List.length_append, List.length_singleton, h]
  omega

/-- A receiver that is no further behind than the channel keeps misses nothing. -/
theorem Channel.Full.missed_recv {capacity : Nat} {channel : Channel α} (h : channel.Full capacity) {next : Nat}
    (hbehind : channel.sent - next ≤ capacity) : (channel.recv next).1.missed = 0 := by
  have hin : ¬next < channel.oldest := by
    rw [Channel.oldest, h]
    omega
  unfold Channel.recv
  rw [if_neg hin]
  cases channel.kept[next - channel.oldest]? <;> rfl

/-- What was told accounts for the values: each in its place, or counted among those missed there. -/
inductive Covers : List (Received α) → List α → Prop
  | start : Covers [] []
  | value {told : List (Received α)} {values : List α} (v : α) :
      Covers told values → Covers (told ++ [.value v]) (values ++ [v])
  | lagged {told : List (Received α)} {values : List α} (missed : List α) :
      Covers told values → Covers (told ++ [.lagged missed.length]) (values ++ missed)
  | nothing {told : List (Received α)} {values : List α} : Covers told values → Covers (told ++ [.nothing]) values

/-- The values among what was told. -/
def heard (told : List (Received α)) : List α := told.filterMap Received.value?

/-- How many values were missed. -/
def missed (told : List (Received α)) : Nat := (told.map Received.missed).sum

section

variable (told : List (Received α))

@[simp] theorem heard_value (v : α) : heard (told ++ [.value v]) = heard told ++ [v] := by
  simp [heard, Received.value?]

@[simp] theorem heard_lagged (n : Nat) : heard (told ++ [.lagged n]) = heard told := by
  simp [heard, Received.value?]

@[simp] theorem heard_nothing : heard (told ++ [.nothing]) = heard told := by
  simp [heard, Received.value?]

@[simp] theorem missed_value (v : α) : missed (told ++ [.value v]) = missed told := by
  simp [missed, Received.missed]

@[simp] theorem missed_lagged (n : Nat) : missed (told ++ [.lagged n]) = missed told + n := by
  simp [missed, Received.missed]

@[simp] theorem missed_nothing : missed (told ++ [.nothing]) = missed told := by
  simp [missed, Received.missed]

end

theorem missed_concat (told : List (Received α)) (received : Received α) :
    missed (told ++ [received]) = missed told + received.missed := by
  simp [missed]

theorem Covers.heard_sublist {told : List (Received α)} {values : List α} (h : Covers told values) :
    (heard told).Sublist values := by
  induction h with
  | start => exact .slnil
  | value v _ ih =>
      rw [heard_value]
      exact ih.append (List.Sublist.refl [v])
  | lagged missed _ ih =>
      rw [heard_lagged]
      exact ih.trans (List.sublist_append_left _ _)
  | nothing _ ih =>
      rw [heard_nothing]
      exact ih

/-- What was heard and what was missed make up the number of the values. -/
theorem Covers.length {told : List (Received α)} {values : List α} (h : Covers told values) :
    values.length = (heard told).length + missed told := by
  induction h with
  | start => rfl
  | value v _ ih =>
      rw [heard_value, missed_value, List.length_append, List.length_append, ih]
      omega
  | lagged missed _ ih =>
      rw [heard_lagged, missed_lagged, List.length_append, ih]
      omega
  | nothing _ ih =>
      rw [heard_nothing, missed_nothing]
      exact ih

/-- One that missed nothing heard everything. -/
theorem Covers.heard_eq {told : List (Received α)} {values : List α} (h : Covers told values)
    (hmissed : missed told = 0) : heard told = values :=
  h.heard_sublist.eq_of_length (by rw [h.length, hmissed, Nat.add_zero])

/-- Reading on keeps what was told in step with the log. -/
theorem Channel.Keeps.recv {channel : Channel α} {log : List α} (h : channel.Keeps log) {since next : Nat}
    (hsince : since ≤ next) (hnext : next ≤ log.length) {told : List (Received α)}
    (hcovers : Covers told ((log.take next).drop since)) :
    next ≤ (channel.recv next).2 ∧ (channel.recv next).2 ≤ log.length ∧
      Covers (told ++ [(channel.recv next).1]) ((log.take (channel.recv next).2).drop since) := by
  have holdest : channel.oldest ≤ log.length := by
    rw [Channel.oldest, h.sent]
    exact Nat.sub_le _ _
  unfold Channel.recv
  split_ifs with hbehind
  · refine ⟨hbehind.le, holdest, ?_⟩
    have hmissed : ((log.take channel.oldest).drop next).length = channel.oldest - next := by
      rw [List.length_drop, List.length_take, min_eq_left holdest]
    have hsplit : (log.take channel.oldest).drop since =
        (log.take next).drop since ++ (log.take channel.oldest).drop next :=
      calc (log.take channel.oldest).drop since
          = ((log.take channel.oldest).take next ++ (log.take channel.oldest).drop next).drop since := by
            rw [List.take_append_drop]
        _ = (log.take next).drop since ++ (log.take channel.oldest).drop next := by
            rw [List.take_take, min_eq_left hbehind.le, List.drop_append_of_le_length]
            rw [List.length_take, min_eq_left hnext]
            exact hsince
    rw [hsplit, ← hmissed]
    exact hcovers.lagged _
  · rw [not_lt] at hbehind
    have hvalue : channel.kept[next - channel.oldest]? = log[next]? := by
      rw [h.kept, List.getElem?_drop, Nat.add_sub_cancel' hbehind]
    rw [hvalue]
    cases hread : log[next]? with
    | none => exact ⟨le_refl _, hnext, hcovers.nothing⟩
    | some v =>
        obtain ⟨hlt, -⟩ := List.getElem?_eq_some_iff.mp hread
        refine ⟨Nat.le_succ _, hlt, ?_⟩
        have hsplit : (log.take (next + 1)).drop since = (log.take next).drop since ++ [v] := by
          rw [List.take_add_one, hread, Option.toList_some, List.drop_append_of_le_length]
          rw [List.length_take, min_eq_left hnext]
          exact hsince
        rw [hsplit]
        exact hcovers.value v

end Broadcast
