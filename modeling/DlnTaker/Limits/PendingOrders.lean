import DlnTaker.Orders.Interfaces

/-! # The list of pending orders

The orders that wait for their unlock are listed page by page. A page is what
the statistics service has after the orders already listed; the length of the
pages is the choice of the service, up to what is asked for.
-/

namespace DlnTaker

structure PendingPage where
  orders : List OrderId
  totalCount : ℕ

/-- The loop of `getPendingForUnlockOrderIds`. -/
structure PendingRead where
  skip : ℕ
  hasMoreOrders : Bool
  orderIds : List OrderId

namespace PendingRead

def initial : PendingRead := ⟨0, true, []⟩

def pageSize : ℕ := 100

def next (read : PendingRead) (page : PendingPage) : PendingRead :=
  let orderIds := read.orderIds ++ page.orders
  { skip := read.skip + page.orders.length
    hasMoreOrders := !(page.orders.length == 0 || decide (orderIds.length ≥ page.totalCount))
    orderIds }

end PendingRead

namespace PendingPage

/-- The answer to a request that skips some orders. -/
def answer (pending : List OrderId) (skip count : ℕ) : PendingPage :=
  ⟨(pending.drop skip).take count, pending.length⟩

/-- A page may be shorter than asked for, but is empty only at the end of the list. -/
def Allowed (pending : List OrderId) (skip count : ℕ) : Prop :=
  count ≤ PendingRead.pageSize ∧ (count = 0 → pending.length ≤ skip)

instance {pending : List OrderId} {skip count : ℕ} : Decidable (Allowed pending skip count) := by
  unfold Allowed; infer_instance

end PendingPage

namespace PendingRead

variable {pending : List OrderId} {read : PendingRead} {count : ℕ}

theorem hasMoreOrders_next {page : PendingPage} :
    (read.next page).hasMoreOrders = false ↔
      page.orders.length = 0 ∨ page.totalCount ≤ (read.orderIds ++ page.orders).length := by
  simp only [next, Bool.not_eq_false', Bool.or_eq_true, beq_iff_eq, decide_eq_true_eq, ge_iff_le]

/-- What has been listed is what has been skipped, and it is the whole list at the end. -/
structure Lists (pending : List OrderId) (read : PendingRead) : Prop where
  listed : read.orderIds = pending.take read.skip
  all : read.hasMoreOrders = false → read.orderIds = pending

theorem lists_initial : Lists pending .initial where
  listed := rfl
  all h := nomatch h

theorem orderIds_next (h : Lists pending read) :
    (read.next (.answer pending read.skip count)).orderIds =
      pending.take (read.skip + ((pending.drop read.skip).take count).length) := by
  have hpage : (pending.drop read.skip).take ((pending.drop read.skip).take count).length =
      (pending.drop read.skip).take count := by
    rw [List.length_take, ← List.take_take, List.take_length]
  rw [List.take_add, hpage, ← h.listed]
  rfl

/-- A page of an unchanged list. -/
theorem Lists.next (h : Lists pending read) (ha : PendingPage.Allowed pending read.skip count) :
    Lists pending (read.next (.answer pending read.skip count)) where
  listed := orderIds_next h
  all hmore := by
    have hlen : pending.length ≤
        read.skip + ((pending.drop read.skip).take count).length := by
      rcases hasMoreOrders_next.mp hmore with hempty | htotal
      · rw [PendingPage.answer, List.length_take, List.length_drop] at hempty
        have := ha.2
        omega
      · rw [List.length_append, h.listed, List.length_take] at htotal
        exact htotal.trans (Nat.add_le_add_right (Nat.min_le_left _ _) _)
    rw [orderIds_next h, List.take_of_length_le hlen]

/-- While there are more orders, a page brings some of them, but not the last. -/
theorem skip_next_of_hasMoreOrders (h : Lists pending read)
    (hmore : (read.next (.answer pending read.skip count)).hasMoreOrders = true) :
    read.skip < (read.next (.answer pending read.skip count)).skip ∧
      (read.next (.answer pending read.skip count)).skip < pending.length := by
  have hstop := mt hasMoreOrders_next.mpr (Bool.not_eq_false _ ▸ hmore)
  rw [not_or, not_le] at hstop
  obtain ⟨hsome, htotal⟩ := hstop
  rw [List.length_append, h.listed, List.length_take] at htotal
  simp only [PendingPage.answer, List.length_take, List.length_drop] at hsome htotal
  simp only [next, PendingPage.answer, List.length_take, List.length_drop]
  omega

end PendingRead

/-! ### The whole loop

The service answers one request after the other. How long a page is may depend
on everything that has been asked before, so an answer is given for the number
of the request.
-/

structure PendingRequest where
  giveChainIds : List ChainId
  orderStates : List String
  unlockAuthorities : List String
  skip : ℕ
  take : ℕ

/-- What the service answers to its `n`-th request. -/
abbrev PendingService := ℕ → PendingRequest → PendingPage

namespace PendingService

variable (service : PendingService) (unlockAuthorities : List String) (source : ChainId)

/-- One turn of the loop. -/
def nextPage (n : ℕ) (read : PendingRead) : PendingRead :=
  read.next (service n
    { giveChainIds := [source]
      orderStates := ["Fulfilled", "SentUnlock"]
      unlockAuthorities
      skip := read.skip
      take := PendingRead.pageSize })

/-- The loop from its `n`-th turn on, if it ends within so many checks of its condition. -/
def readPages : ℕ → ℕ → PendingRead → Option PendingRead
  | 0, _, _ => none
  | fuel + 1, n, read =>
    if read.hasMoreOrders then
      readPages fuel (n + 1) (service.nextPage unlockAuthorities source n read)
    else some read

def getPendingForUnlockOrderIds (fuel : ℕ) : Option (List OrderId) :=
  (service.readPages unlockAuthorities source fuel 0 .initial).map PendingRead.orderIds

/-- The service lists these orders, in pages of its own choice. -/
def Serves (pending : List OrderId) : Prop :=
  ∀ n request, ∃ count, PendingPage.Allowed pending request.skip count ∧
    service n request = .answer pending request.skip count

variable {service unlockAuthorities source} {pending : List OrderId} {read : PendingRead} {n : ℕ}

theorem exists_nextPage_eq (h : service.Serves pending) :
    ∃ count, PendingPage.Allowed pending read.skip count ∧
      service.nextPage unlockAuthorities source n read =
        read.next (.answer pending read.skip count) := by
  obtain ⟨count, ha, hs⟩ := h n
    ⟨[source], ["Fulfilled", "SentUnlock"], unlockAuthorities, read.skip, PendingRead.pageSize⟩
  exact ⟨count, ha, congrArg read.next hs⟩

/-- Each turn but the last skips one more order, so the loop ends, and then it has listed all. -/
theorem readPages_complete (h : service.Serves pending) {fuel : ℕ} (hl : read.Lists pending)
    (hfuel : if read.hasMoreOrders then pending.length - read.skip + 1 < fuel else 0 < fuel) :
    ∃ read', service.readPages unlockAuthorities source fuel n read = some read' ∧
      read'.orderIds = pending := by
  induction fuel generalizing n read with
  | zero => split at hfuel <;> omega
  | succ fuel ih =>
    cases hmore : read.hasMoreOrders with
    | false =>
      refine ⟨read, ?_, hl.all hmore⟩
      rw [readPages, hmore]
      rfl
    | true =>
      rw [if_pos hmore] at hfuel
      obtain ⟨count, ha, hpage⟩ := exists_nextPage_eq (n := n) h
      rw [readPages, if_pos hmore, hpage]
      refine ih (hl.next ha) ?_
      split
      · rename_i hagain
        have := PendingRead.skip_next_of_hasMoreOrders hl hagain
        omega
      · omega

/-- Whatever the lengths of the pages, the loop ends, and what it has listed are the pending
orders. -/
theorem getPendingForUnlockOrderIds_eq (h : service.Serves pending) {fuel : ℕ}
    (hfuel : pending.length + 1 < fuel) :
    service.getPendingForUnlockOrderIds unlockAuthorities source fuel = some pending := by
  have hread : ∃ read, service.readPages unlockAuthorities source fuel 0 .initial = some read ∧
      read.orderIds = pending := readPages_complete h PendingRead.lists_initial hfuel
  obtain ⟨read, hread, hids⟩ := hread
  rw [getPendingForUnlockOrderIds, hread, Option.map_some, hids]

/-- The pages of this service get longer with every request. -/
def growing (pending : List OrderId) : PendingService := fun n request =>
  .answer pending request.skip (min (n + 1) PendingRead.pageSize)

theorem serves_growing (pending : List OrderId) : (growing pending).Serves pending := by
  intro n request
  refine ⟨min (n + 1) PendingRead.pageSize, ⟨Nat.min_le_right _ _, fun h => ?_⟩, rfl⟩
  unfold PendingRead.pageSize at h
  omega

theorem getPendingForUnlockOrderIds_eq_growing :
    (growing ["0x01", "0x02", "0x03"]).getPendingForUnlockOrderIds ["0xbe"] 1 5 =
      some ["0x01", "0x02", "0x03"] :=
  getPendingForUnlockOrderIds_eq (serves_growing _) (by decide)

end PendingService

end DlnTaker
