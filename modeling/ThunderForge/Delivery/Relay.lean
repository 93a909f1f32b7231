import ThunderForge.Delivery.Cursor
import ThunderForge.Lib.Tailing

/-! What one poll of the event table means: what to broadcast, and where the cursor lands afterwards. The relay is a
reader that forgets what its cursor has passed. -/

namespace ThunderForge.Delivery

/-- A row this relay can reason about. -/
class Stamped (ρ : Type*) where
  stamp : ρ → RowStamp

export Stamped (stamp)

instance : Stamped RowStamp where
  stamp row := row

variable {ρ : Type*} [Stamped ρ]

/-- The id of a row. -/
def rowId (row : ρ) : Int := (stamp row).id

/-- Tracks what has been broadcast and how far the cursor has settled. -/
structure Relay where
  cursor : Int
  /-- Ids already broadcast but not yet passed by the cursor. -/
  delivered : Finset Int
deriving DecidableEq

/-- `Relay::new` -/
def Relay.start (startAfter : Int) : Relay := { cursor := startAfter, delivered := ∅ }

/-- How many ids are being remembered for de-duplication. -/
def Relay.tracked (relay : Relay) : Nat := relay.delivered.card

/-- The loop of `absorb`: each row whose id `insert` finds new is published. -/
def deliverNew : Finset Int → List ρ → Finset Int × List ρ
  | delivered, [] => (delivered, [])
  | delivered, row :: rows =>
      if rowId row ∈ delivered then deliverNew delivered rows
      else
        let rest := deliverNew (insert (rowId row) delivered) rows
        (rest.1, row :: rest.2)

/-- Take the rows one poll returned; get back the rows to broadcast. -/
def Relay.absorb (relay : Relay) (rows : List ρ) (now : NaiveDateTime) : Relay × List ρ :=
  let stamps := rows.map stamp
  let settled := settledCursor stamps relay.cursor now
  let (delivered, publish) := deliverNew relay.delivered rows
  ({ cursor := settled, delivered := delivered.filter (settled + 1 ≤ ·) }, publish)

/-- The relay as a reader of the table. -/
def Relay.reader (relay : Relay) : Tailing.Reader Int := { floor := relay.cursor, sent := relay.delivered }

theorem deliverNew_eq (delivered : Finset Int) (rows : List ρ) :
    deliverNew delivered rows = (delivered ∪ Tailing.keys rowId rows, Tailing.fresh rowId delivered rows) := by
  induction rows generalizing delivered with
  | nil => simp [deliverNew]
  | cons row rows ih =>
      have hkeys (seen : Finset Int) : insert (rowId row) seen ∪ Tailing.keys rowId rows =
          seen ∪ Tailing.keys rowId (row :: rows) := by
        ext i
        simp only [Finset.mem_union, Finset.mem_insert, Tailing.mem_keys, List.mem_cons]
        grind
      unfold deliverNew
      by_cases hsent : rowId row ∈ delivered
      · rw [if_pos hsent, ih, Tailing.fresh_cons_of_mem hsent, ← hkeys, Finset.insert_eq_of_mem hsent]
      · rw [if_neg hsent, Tailing.fresh_cons_of_notMem hsent]
        simp only [ih, hkeys]

section

variable (relay : Relay) (rows : List ρ) (now : NaiveDateTime)

@[simp] theorem Relay.absorb_cursor :
    (relay.absorb rows now).1.cursor = settledCursor (rows.map stamp) relay.cursor now := rfl

@[simp] theorem Relay.absorb_delivered : (relay.absorb rows now).1.delivered =
    (relay.delivered ∪ Tailing.keys rowId rows).filter (settledCursor (rows.map stamp) relay.cursor now < ·) := by
  unfold Relay.absorb
  simp only [deliverNew_eq, Int.add_one_le_iff]

@[simp] theorem Relay.absorb_publish :
    (relay.absorb rows now).2 = Tailing.fresh rowId relay.delivered rows :=
  congrArg Prod.snd (deliverNew_eq relay.delivered rows)

/-- To absorb a poll is to read it. -/
theorem Relay.absorb_reader :
    ((relay.absorb rows now).1.reader, (relay.absorb rows now).2) =
      relay.reader.read rowId ⟨rows, settledCursor (rows.map stamp) relay.cursor now⟩ := by
  refine Prod.ext ?_ (Relay.absorb_publish relay rows now)
  rw [Relay.reader, Relay.absorb_delivered, Relay.absorb_cursor]
  rfl

/-- What is broadcast was not before, and stays remembered until the cursor passes it. -/
theorem Relay.absorb_remembers {relay : Relay} {rows : List ρ} {now : NaiveDateTime} {history : Finset Int}
    (h : relay.reader.Remembers history) (habove : ∀ row ∈ rows, relay.cursor < rowId row) :
    (relay.absorb rows now).1.reader.Remembers (history ∪ Tailing.keys rowId rows) := by
  have hread := congrArg Prod.fst (Relay.absorb_reader relay rows now)
  rw [show (relay.absorb rows now).1.reader = _ from hread]
  exact h.read ⟨habove, le_settledCursor⟩

end

/-- One poll's rows and when they were absorbed. -/
structure Poll (ρ : Type*) where
  rows : List ρ
  now : NaiveDateTime

/-- One pass of the loop, on the relay. -/
def Relay.pass (relay : Relay) (poll : Poll ρ) : Relay × List ρ := relay.absorb poll.rows poll.now

/-- The rows of a poll are those with an id above the cursor. -/
def Relay.Bounded (relay : Relay) (poll : Poll ρ) : Prop := ∀ row ∈ poll.rows, relay.cursor < rowId row

/-- Whatever the polls return, and however often a row comes back, what is broadcast in the end is every row that a
poll returned, once, in the order in which they first came. -/
theorem Relay.broadcast_eq (start : Int) (polls : List (Poll ρ))
    (hbounded : Run.Meets (Run.next Relay.pass) Relay.Bounded (Relay.start start) polls) :
    (Run.answers Relay.pass (Relay.start start) polls).flatten =
      Tailing.fresh rowId ∅ (polls.map Poll.rows).flatten := by
  refine Tailing.Reader.answers_eq_fresh (fun relay poll => Relay.absorb_reader relay poll.rows poll.now)
    (fun i => ?_) ?_
  · simp [Relay.start, Relay.reader]
  · exact hbounded.imp fun relay poll hpoll => ⟨hpoll, le_settledCursor⟩

instance (relay : Relay) (poll : Poll ρ) : Decidable (relay.Bounded poll) :=
  inferInstanceAs (Decidable (∀ row ∈ poll.rows, relay.cursor < rowId row))

/-- Polls two seconds and more apart: the row with the lower id is seen late. -/
def lateRow : List (Poll RowStamp) :=
  [⟨[⟨2, 10 ^ 9⟩], 2 * 10 ^ 9⟩, ⟨[⟨1, 10 ^ 9⟩, ⟨2, 10 ^ 9⟩], 3 * 10 ^ 9⟩, ⟨[⟨1, 10 ^ 9⟩, ⟨2, 10 ^ 9⟩], 4 * 10 ^ 9⟩,
    ⟨[⟨3, 4 * 10 ^ 9⟩], 5 * 10 ^ 9⟩]

theorem broadcast_eq_lateRow : Run.answers Relay.pass (Relay.start 0) lateRow =
      [[⟨2, 10 ^ 9⟩], [⟨1, 10 ^ 9⟩], [], [⟨3, 4 * 10 ^ 9⟩]] ∧
    (Run.answers Relay.pass (Relay.start 0) lateRow).flatten =
      Tailing.fresh rowId ∅ (lateRow.map Poll.rows).flatten :=
  ⟨by decide, Relay.broadcast_eq 0 lateRow (by decide)⟩

end ThunderForge.Delivery
