import Mathlib.Data.List.Basic

/-! Reliable first-in first-out channels between every ordered pair of nodes: broadcasting to the other
nodes, taking the head of one channel, and encoding every message on its way. -/

namespace Fifo

variable {ν κ μ : Type*} [DecidableEq ν]

/-- What is in flight from one node to another, oldest first. -/
abbrev Channels (ν μ : Type*) := ν → ν → List μ

/-- Send the messages to every other node of the list. -/
def broadcast (nodes : List ν) (source : ν) (messages : List μ) (channels : Channels ν μ) : Channels ν μ :=
  fun sender receiver =>
    if sender = source ∧ receiver ∈ nodes ∧ receiver ≠ source then channels sender receiver ++ messages
    else channels sender receiver

/-- Take the oldest message off one channel. -/
def pop (source target : ν) (channels : Channels ν μ) : Channels ν μ :=
  fun sender receiver =>
    if sender = source ∧ receiver = target then (channels sender receiver).tail
    else channels sender receiver

/-- The same channels, with every message encoded. -/
def map (encode : κ → μ) (channels : Channels ν κ) : Channels ν μ :=
  fun sender receiver => (channels sender receiver).map encode

theorem map_broadcast (encode : κ → μ) (nodes : List ν) (source : ν) (messages : List κ)
    (channels : Channels ν κ) :
    map encode (broadcast nodes source messages channels) =
      broadcast nodes source (messages.map encode) (map encode channels) := by
  funext sender receiver
  unfold map broadcast
  split_ifs <;> simp

theorem map_pop (encode : κ → μ) (source target : ν) (channels : Channels ν κ) :
    map encode (pop source target channels) = pop source target (map encode channels) := by
  funext sender receiver
  unfold map pop
  split_ifs <;> simp

theorem mem_broadcast {nodes : List ν} {source sender receiver : ν} {messages : List μ}
    {channels : Channels ν μ} {message : μ}
    (h : message ∈ broadcast nodes source messages channels sender receiver) :
    message ∈ channels sender receiver ∨
      message ∈ messages ∧ sender = source ∧ receiver ∈ nodes ∧ receiver ≠ source := by
  unfold broadcast at h
  split_ifs at h with hsent
  · rcases List.mem_append.mp h with h | h
    · exact .inl h
    · exact .inr ⟨h, hsent⟩
  · exact .inl h

theorem broadcast_of_ne {nodes : List ν} {source sender receiver : ν} (messages : List μ)
    (channels : Channels ν μ) (h : sender ≠ source) :
    broadcast nodes source messages channels sender receiver = channels sender receiver :=
  if_neg fun hsent => h hsent.1

theorem broadcast_to_self (nodes : List ν) (source : ν) (messages : List μ) (channels : Channels ν μ) :
    broadcast nodes source messages channels source source = channels source source :=
  if_neg fun hsent => hsent.2.2 rfl

theorem broadcast_to_other {nodes : List ν} {source receiver : ν} (messages : List μ)
    (channels : Channels ν μ) (hreceiver : receiver ∈ nodes) (hne : receiver ≠ source) :
    broadcast nodes source messages channels source receiver = channels source receiver ++ messages :=
  if_pos ⟨rfl, hreceiver, hne⟩

theorem broadcast_nil (nodes : List ν) (source : ν) (channels : Channels ν μ) :
    broadcast nodes source [] channels = channels := by
  funext sender receiver
  simp [broadcast]

theorem mem_of_mem_pop {source target sender receiver : ν} {channels : Channels ν μ} {message : μ}
    (h : message ∈ pop source target channels sender receiver) : message ∈ channels sender receiver := by
  unfold pop at h
  split_ifs at h
  · exact List.mem_of_mem_tail h
  · exact h

theorem pop_self (source target : ν) (channels : Channels ν μ) :
    pop source target channels source target = (channels source target).tail :=
  if_pos ⟨rfl, rfl⟩

theorem pop_of_ne {source target sender receiver : ν} (channels : Channels ν μ)
    (h : ¬(sender = source ∧ receiver = target)) : pop source target channels sender receiver = channels sender receiver :=
  if_neg h

end Fifo
