import ThunderForge.Basic
import ThunderForge.Lib.Broadcast
import ThunderForge.Lib.Run

/-! One channel per world: who hears what is published, while anyone may subscribe, fall behind or leave, and idle
channels are dropped. -/

namespace ThunderForge.Delivery

open Broadcast (Channel Received Covers)

variable {α : Type}

/-- How many events a slow subscriber may fall behind before it starts losing them. -/
def worldChannelCapacity : Nat := 256

/-- The sending end of a world's channel. A channel made later for the same world has another serial. -/
structure Sender (α : Type) where
  serial : Nat
  channel : Channel α

/-- The receiving end that one subscriber holds, under a handle of its own. -/
structure Receiver where
  handle : Nat
  worldId : Uuid
  serial : Nat
  next : Nat

/-- Per-world event fan-out, with the receivers that subscribers hold. -/
structure WorldRouter (α : Type) where
  routes : Uuid → Option (Sender α)
  receivers : List Receiver
  serials : Nat

/-- What a subscriber reads: what its channel tells it, or that the channel is closed. -/
inductive Outcome (α : Type)
  | told (received : Received α)
  | closed

namespace WorldRouter

def new : WorldRouter α := { routes := fun _ => none, receivers := [], serials := 0 }

/-- `Sender::receiver_count` -/
def receiverCount (router : WorldRouter α) (sender : Sender α) : Nat :=
  router.receivers.countP fun receiver => receiver.serial = sender.serial

/-- Listen to one world, whose channel is made when this is its first subscriber. -/
def subscribe (router : WorldRouter α) (handle : Nat) (worldId : Uuid) : WorldRouter α :=
  match router.routes worldId with
  | some sender =>
      { router with
        receivers := router.receivers ++ [{ handle, worldId, serial := sender.serial, next := sender.channel.sent }] }
  | none =>
      { routes := Function.update router.routes worldId (some { serial := router.serials, channel := .empty }),
        receivers := router.receivers ++ [{ handle, worldId, serial := router.serials, next := 0 }],
        serials := router.serials + 1 }

/-- Deliver an event to one world's subscribers; how many it reached. A channel without receivers takes nothing. -/
def publish (router : WorldRouter α) (worldId : Uuid) (event : α) : WorldRouter α × Nat :=
  match router.routes worldId with
  | some sender =>
      if router.receiverCount sender = 0 then (router, 0)
      else
        ({ router with
            routes := Function.update router.routes worldId
              (some { sender with channel := sender.channel.send worldChannelCapacity event }) },
          router.receiverCount sender)
  | none => (router, 0)

/-- The receiver a subscriber holds. -/
def receiver? (router : WorldRouter α) (handle : Nat) : Option Receiver :=
  router.receivers.find? fun receiver => receiver.handle = handle

/-- A subscriber reads once; `none` without a receiver under the handle. -/
def recv (router : WorldRouter α) (handle : Nat) : WorldRouter α × Option (Outcome α) :=
  match router.receiver? handle with
  | none => (router, none)
  | some receiver =>
      match router.routes receiver.worldId with
      | some sender =>
          if sender.serial = receiver.serial then
            let (received, next) := sender.channel.recv receiver.next
            ({ router with
                receivers := router.receivers.map fun other =>
                  if other.handle = handle then { other with next } else other },
              some (.told received))
          else (router, some .closed)
      | none => (router, some .closed)

/-- A subscriber goes away. -/
def leave (router : WorldRouter α) (handle : Nat) : WorldRouter α :=
  { router with receivers := router.receivers.filter fun receiver => receiver.handle ≠ handle }

/-- Drop channels nobody is listening to. -/
def reap (router : WorldRouter α) : WorldRouter α :=
  { router with routes := fun worldId => (router.routes worldId).filter fun sender => 0 < router.receiverCount sender }

/-- How many subscribers a world has. -/
def subscriberCount (router : WorldRouter α) (worldId : Uuid) : Nat :=
  ((router.routes worldId).map router.receiverCount).getD 0

/-- Each channel has its own serial; no two receivers share a handle, and the channel of each is the one its world has
now. -/
structure Wired (router : WorldRouter α) : Prop where
  serials : ∀ worldId sender, router.routes worldId = some sender → sender.serial < router.serials
  apart : ∀ worldId sender worldId' sender', router.routes worldId = some sender →
    router.routes worldId' = some sender' → sender.serial = sender'.serial → worldId = worldId'
  handles : (router.receivers.map Receiver.handle).Nodup
  routed : ∀ receiver ∈ router.receivers, ∃ sender, router.routes receiver.worldId = some sender ∧
    sender.serial = receiver.serial

end WorldRouter

/-- The router with what was published through it, and, by handle, how much had been published when the subscriber
came and what it was told. -/
structure Audience (α : Type) where
  router : WorldRouter α
  published : List (Uuid × α)
  joined : Nat → Nat
  told : Nat → List (Received α)

def Audience.empty : Audience α := { router := .new, published := [], joined := fun _ => 0, told := fun _ => [] }

/-- What happens to a router. -/
inductive Fanout (α : Type)
  | subscribe (handle : Nat) (worldId : Uuid)
  | publish (worldId : Uuid) (event : α)
  | recv (handle : Nat)
  | leave (handle : Nat)
  | reap

/-- One step; a handle that is held is not given out again. -/
def Audience.step (s : Audience α) : Fanout α → Audience α
  | .subscribe handle worldId =>
      if (s.router.receiver? handle).isSome then s
      else
        { s with
          router := s.router.subscribe handle worldId,
          joined := Function.update s.joined handle s.published.length,
          told := Function.update s.told handle [] }
  | .publish worldId event =>
      { s with router := (s.router.publish worldId event).1, published := s.published ++ [(worldId, event)] }
  | .recv handle =>
      match s.router.recv handle with
      | (router, some (.told received)) =>
          { s with router, told := Function.update s.told handle (s.told handle ++ [received]) }
      | (router, _) => { s with router }
  | .leave handle => { s with router := s.router.leave handle }
  | .reap => { s with router := s.router.reap }

/-- What was published for a world since a subscriber of it came. -/
def Audience.due (s : Audience α) (receiver : Receiver) : List α :=
  ((s.published.drop (s.joined receiver.handle)).filter fun entry => entry.1 = receiver.worldId).map Prod.snd

/-- How far a subscriber is behind. -/
def Audience.behind (s : Audience α) (receiver : Receiver) : Nat :=
  ((s.router.routes receiver.worldId).map fun sender => sender.channel.sent).getD 0 - receiver.next

/-- A receiver reads the log of its channel from some point, which is all it is due; what it was told accounts for what
it has passed. -/
structure Audience.Follows (s : Audience α) (receiver : Receiver) (log : List α) : Prop where
  joined : s.joined receiver.handle ≤ s.published.length
  next : receiver.next ≤ log.length
  told : ∃ since, since ≤ receiver.next ∧ s.due receiver = log.drop since ∧
    Covers (s.told receiver.handle) ((log.take receiver.next).drop since)

/-- Every channel keeps a log, and the receivers of its world follow it. -/
structure Audience.Attends (s : Audience α) : Prop where
  wired : s.router.Wired
  logged : ∀ worldId sender, s.router.routes worldId = some sender → ∃ log, sender.channel.Keeps log ∧
    ∀ receiver ∈ s.router.receivers, receiver.worldId = worldId → s.Follows receiver log

end ThunderForge.Delivery
