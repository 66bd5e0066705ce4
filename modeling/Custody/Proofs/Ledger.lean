import Custody.Allocation.Quota
import Custody.Machine.Load

/-! An account and the sizes it has granted.

A sum of sizes could wrap around, and so could the number of grants. Neither does. A
reservation is refused before the sum leaves 64 bits, and since no region is empty there are
never more grants than bytes. So after any requests and any changes of the limit the account
says exactly what was granted (`Balances`), and a request that is not granted leaves no trace,
not even when its bytes were reserved and had to be given back. -/
namespace Custody

theorem toNat_add_of_lt {m n : UInt64} (h : m.toNat + n.toNat < UInt64.size) :
    (m + n).toNat = m.toNat + n.toNat := by
  rw [UInt64.toNat_add]
  exact Nat.mod_eq_of_lt h

namespace Quota

variable {q : Quota} {size : UInt64} {backed : Bool}

/-! ### One request -/

theorem admits_iff : q.admits size = true ↔
    q.bytes.toNat + size.toNat < UInt64.size ∧
      (q.limit = 0 ∨ q.bytes.toNat + size.toNat ≤ q.limit.toNat) := by
  unfold admits
  simp only [Bool.and_eq_true, decide_eq_true_eq, Bool.or_eq_true, beq_iff_eq]
  refine and_congr_right fun hfits => or_congr_right ?_
  rw [UInt64.le_iff_toNat_le, toNat_add_of_lt hfits]

/-- What is given back is what was reserved. -/
theorem giveBack_reserved (q : Quota) (size : UInt64) :
    giveBack {q with bytes := q.bytes + size} size = q := by
  simp [giveBack]

/-- The account with one more region of this size. -/
def charged (q : Quota) (size : UInt64) : Quota :=
  {q with bytes := q.bytes + size, allocations := q.allocations + 1}

theorem request_eq (q : Quota) (backed : Bool) (size : UInt64) :
    q.request backed size =
      if (q.admits size && backed) = true then (true, q.charged size) else (false, q) := by
  unfold request reserve?
  cases q.admits size with
  | false => rfl
  | true =>
    cases backed with
    | true => rfl
    | false => exact congrArg (Prod.mk false) (q.giveBack_reserved size)

theorem granted_iff : (q.request backed size).1 = true ↔
    q.bytes.toNat + size.toNat < UInt64.size ∧
      (q.limit = 0 ∨ q.bytes.toNat + size.toNat ≤ q.limit.toNat) ∧ backed = true := by
  rw [request_eq, ← and_assoc, ← admits_iff, ← Bool.and_eq_true]
  split <;> simp_all

theorem request_of_granted (h : (q.request backed size).1 = true) :
    (q.request backed size).2 = q.charged size := by
  rw [request_eq] at h ⊢
  split at h
  · next hyes => rw [if_pos hyes]
  · cases h

/-- A request that is not granted leaves no trace. -/
theorem request_of_refused (h : (q.request backed size).1 = false) :
    (q.request backed size).2 = q := by
  rw [request_eq] at h ⊢
  split at h
  · cases h
  · next hno => rw [if_neg hno]

/-! ### The sizes granted -/

/-- A demand, and whether there is memory for it at that moment. -/
structure Turn where
  demand : Demand
  backed : Bool
  deriving DecidableEq, Repr

namespace Turn

/-- The account after the turn, and whether a request was granted. -/
def take (turn : Turn) (q : Quota) : Option Bool × Quota :=
  q.meet (fun _ => turn.backed) turn.demand

/-- The size that the turn is granted. -/
def granted? (turn : Turn) (q : Quota) : Option UInt64 :=
  match turn.demand with
  | .grant size => if (q.request turn.backed size).1 = true then some size else none
  | .limit _ => none

/-- No memory is asked for without a size. -/
def Sized (turn : Turn) : Prop :=
  ∀ size, turn.demand = .grant size → size ≠ 0

end Turn

/-- The account after all the turns. -/
def after (q : Quota) : List Turn → Quota
  | [] => q
  | turn :: rest => (turn.take q).2.after rest

/-- The sizes that were granted, in order. -/
def granted (q : Quota) : List Turn → List UInt64
  | [] => []
  | turn :: rest => (turn.granted? q).toList ++ (turn.take q).2.granted rest

/-- A demand that is met where the size alone says whether there is memory. -/
def Demand.turn (backed : UInt64 → Bool) : Demand → Turn
  | .grant size => ⟨.grant size, backed size⟩
  | .limit bytes => ⟨.limit bytes, false⟩

theorem take_turn (q : Quota) (backed : UInt64 → Bool) (demand : Demand) :
    (demand.turn backed).take q = q.meet backed demand := by
  cases demand <;> rfl

/-- Demands that are met one after the other are met in turns. -/
theorem meetAll_getElem? (q : Quota) (backed : UInt64 → Bool) (demands : List Demand) (i : Nat) :
    (q.meetAll backed demands)[i]? = demands[i]?.map fun demand =>
      (demand.turn backed).take (q.after ((demands.take i).map (·.turn backed))) := by
  induction demands generalizing q i with
  | nil => rfl
  | cons demand rest ih =>
    cases i with
    | zero => simp [meetAll, take_turn, after]
    | succ i => simpa [meetAll, take_turn, after] using ih _ i

/-! ### The balance -/

/-- An account that says what was granted, counted without bounds. -/
structure Balances (q : Quota) (sizes : List UInt64) : Prop where
  bytes : q.bytes.toNat = total UInt64.toNat sizes
  allocations : q.allocations.toNat = sizes.length
  sized : ∀ size ∈ sizes, size ≠ 0

theorem length_le_total {sizes : List UInt64} (h : ∀ size ∈ sizes, size ≠ 0) :
    sizes.length ≤ total UInt64.toNat sizes := by
  induction sizes with
  | nil => exact Nat.le_refl _
  | cons size rest ih =>
    obtain ⟨hsize, hrest⟩ := List.forall_mem_cons.1 h
    have hpositive : size.toNat ≠ 0 := fun hzero => hsize (UInt64.toNat_inj.1 hzero)
    have := ih hrest
    simp only [List.length_cons, total_cons]
    omega

namespace Balances

variable {sizes : List UInt64}

theorem start (limit : UInt64) : Balances {limit} [] :=
  ⟨rfl, rfl, fun _ hsize => absurd hsize List.not_mem_nil⟩

theorem setLimit (h : q.Balances sizes) (limit : UInt64) : Balances {q with limit} sizes :=
  ⟨h.bytes, h.allocations, h.sized⟩

/-- A region more. The number of regions fits in 64 bits because the bytes do. -/
theorem charge (h : q.Balances sizes) (hsize : size ≠ 0)
    (hfits : q.bytes.toNat + size.toNat < UInt64.size) :
    (q.charged size).Balances (sizes ++ [size]) := by
  have hbytes : (q.bytes + size).toNat = q.bytes.toNat + size.toNat := toNat_add_of_lt hfits
  have hall : ∀ x ∈ sizes ++ [size], x ≠ 0 := by
    rintro x hx
    rcases List.mem_append.1 hx with hx | hx
    · exact h.sized x hx
    · rwa [List.mem_singleton.1 hx]
  have htotal : total UInt64.toNat (sizes ++ [size]) = q.bytes.toNat + size.toNat := by
    simp [total_append, h.bytes]
  have hcount : q.allocations.toNat + 1 < UInt64.size := by
    have hle := length_le_total hall
    rw [htotal, List.length_append, List.length_singleton, ← h.allocations] at hle
    exact Nat.lt_of_le_of_lt hle hfits
  refine ⟨hbytes.trans htotal.symm, ?_, hall⟩
  rw [List.length_append, List.length_singleton, ← h.allocations]
  exact toNat_add_of_lt hcount

theorem take (h : q.Balances sizes) {turn : Turn} (hturn : turn.Sized) :
    (turn.take q).2.Balances (sizes ++ (turn.granted? q).toList) := by
  obtain ⟨demand, backed⟩ := turn
  cases demand with
  | limit bytes =>
    show Balances {q with limit := bytes} (sizes ++ [])
    rw [List.append_nil]
    exact h.setLimit bytes
  | grant size =>
    show (q.request backed size).2.Balances _
    unfold Turn.granted?
    dsimp only
    cases hgranted : (q.request backed size).1 with
    | true =>
      rw [request_of_granted hgranted]
      exact h.charge (hturn size rfl) (granted_iff.1 hgranted).1
    | false =>
      rw [request_of_refused hgranted]
      simpa using h

theorem after (h : q.Balances sizes) {turns : List Turn} (hturns : ∀ turn ∈ turns, turn.Sized) :
    (q.after turns).Balances (sizes ++ q.granted turns) := by
  induction turns generalizing q sizes with
  | nil =>
    rw [show q.granted [] = [] from rfl, List.append_nil]
    exact h
  | cons turn rest ih =>
    obtain ⟨hturn, hrest⟩ := List.forall_mem_cons.1 hturns
    have := ih (h.take hturn) hrest
    rwa [List.append_assoc] at this

end Balances

/-! ### The limit -/

/-- What a turn does not change of the limit. -/
theorem limit_take {turn : Turn} (h : ∀ bytes, turn.demand ≠ .limit bytes) :
    (turn.take q).2.limit = q.limit := by
  obtain ⟨demand, backed⟩ := turn
  cases demand with
  | limit bytes => exact absurd rfl (h bytes)
  | grant size =>
    show (q.request backed size).2.limit = q.limit
    cases hgranted : (q.request backed size).1 with
    | true => rw [request_of_granted hgranted]; rfl
    | false => rw [request_of_refused hgranted]

/-- Right after a grant the bytes are within a limit that there is. -/
theorem bytes_le_limit_of_granted (h : (q.request backed size).1 = true) (hlimit : q.limit ≠ 0) :
    (q.request backed size).2.bytes ≤ (q.request backed size).2.limit := by
  obtain ⟨hfits, hwithin, -⟩ := granted_iff.1 h
  rw [request_of_granted h]
  show q.bytes + size ≤ q.limit
  rw [UInt64.le_iff_toNat_le, toNat_add_of_lt hfits]
  exact hwithin.resolve_left hlimit

/-- While a limit stands, the account is within it once anything has been granted. -/
theorem bytes_le_limit_of_steady (hlimit : q.limit ≠ 0) {turns : List Turn}
    (hsteady : ∀ turn ∈ turns, ∀ bytes, turn.demand ≠ .limit bytes) :
    (q.after turns).limit = q.limit ∧
      ((q.granted turns = [] ∧ (q.after turns).bytes = q.bytes) ∨
        (q.after turns).bytes ≤ q.limit) := by
  induction turns generalizing q with
  | nil => exact ⟨rfl, .inl ⟨rfl, rfl⟩⟩
  | cons turn rest ih =>
    obtain ⟨hturn, hrest⟩ := List.forall_mem_cons.1 hsteady
    have hsame : (turn.take q).2.limit = q.limit := limit_take hturn
    obtain ⟨hkept, hbytes⟩ := ih (hsame ▸ hlimit) hrest
    refine ⟨hkept.trans hsame, ?_⟩
    rw [hsame] at hbytes
    rcases hbytes with ⟨hnone, hbytes⟩ | hwithin
    · -- nothing is granted later, so it depends on this turn
      obtain ⟨demand, backed⟩ := turn
      cases demand with
      | limit bytes => exact absurd rfl (hturn bytes)
      | grant size =>
        cases hgranted : (q.request backed size).1 with
        | true =>
          have := bytes_le_limit_of_granted hgranted hlimit
          rw [show (q.request backed size).2.limit = q.limit from hsame] at this
          exact .inr (hbytes ▸ this)
        | false =>
          refine .inl ⟨?_, hbytes.trans (congrArg bytes (request_of_refused hgranted))⟩
          simp [granted, Turn.granted?, hgranted, hnone]
    · exact .inr hwithin

/-! ### The account of an allocator -/

/-- What an account says after these turns, and what it answers then. -/
structure Kept (q : Quota) (sizes : List UInt64) : Prop where
  /-- The sum of the sizes, which has not wrapped around. -/
  bytes : q.bytes.toNat = total UInt64.toNat sizes
  allocations : q.allocations.toNat = sizes.length
  grants (backed : Bool) (size : UInt64) : (q.request backed size).1 = true ↔
    q.bytes.toNat + size.toNat < UInt64.size ∧
      (q.limit = 0 ∨ q.bytes.toNat + size.toNat ≤ q.limit.toNat) ∧ backed = true
  charges (backed : Bool) (size : UInt64) (given : (q.request backed size).1 = true) :
    (q.request backed size).2 = q.charged size
  refuses (backed : Bool) (size : UInt64) (refused : (q.request backed size).1 = false) :
    (q.request backed size).2 = q
  limits (bytes : UInt64) (backed : UInt64 → Bool) :
    (q.meet backed (.limit bytes)).2 = {q with limit := bytes}
  within (backed : Bool) (size : UInt64) (given : (q.request backed size).1 = true)
    (limited : q.limit ≠ 0) :
    (q.request backed size).2.bytes ≤ (q.request backed size).2.limit
  /-- Turns that leave the limit where it is never lead past it. -/
  steady (limited : q.limit ≠ 0) (later : List Turn)
    (unchanged : ∀ turn ∈ later, ∀ bytes, turn.demand ≠ .limit bytes) :
    (q.after later).limit = q.limit ∧
      ((q.granted later = [] ∧ (q.after later).bytes = q.bytes) ∨
        (q.after later).bytes ≤ q.limit)

/-- **The account is exact** after any requests for memory and any changes of the limit, whatever
memory there was for each. -/
theorem keepsAccount (limit : UInt64) (turns : List Turn) (hturns : ∀ turn ∈ turns, turn.Sized) :
    (after {limit} turns).Kept (granted {limit} turns) :=
  have hbalances : (after {limit} turns).Balances (granted {limit} turns) := by
    simpa using (Balances.start limit).after hturns
  { bytes := hbalances.bytes
    allocations := hbalances.allocations
    grants := fun _ _ => granted_iff
    charges := fun _ _ => request_of_granted
    refuses := fun _ _ => request_of_refused
    limits := fun _ _ => rfl
    within := fun _ _ => bytes_le_limit_of_granted
    steady := fun limited _ => bytes_le_limit_of_steady limited }

/-- A grant, one that finds no memory, a limit below what is in use, one that is refused there, and
one after the limit is lifted. -/
def strained : List Turn :=
  [⟨.grant 64, true⟩, ⟨.grant 32, false⟩, ⟨.limit 48, true⟩, ⟨.grant 16, true⟩, ⟨.limit 0, true⟩,
    ⟨.grant 16, true⟩]

theorem keepsAccount_strained :
    (∀ turn ∈ strained, turn.Sized) ∧ granted {limit := 128} strained = [64, 16] ∧
      after {limit := 128} strained = ⟨0, 80, 2⟩ ∧
      (after {limit := 128} strained).bytes.toNat = 64 + 16 := by
  have hsized : ∀ turn ∈ strained, turn.Sized := by simp [strained, Turn.Sized]
  refine ⟨hsized, by decide, by decide, ?_⟩
  rw [(keepsAccount 128 strained hsized).bytes]
  rfl

end Quota
end Custody
