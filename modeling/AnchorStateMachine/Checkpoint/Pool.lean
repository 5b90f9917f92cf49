import AnchorStateMachine.Checkpoint.Transitions

/-! How the deposit pool follows the messages: every withdrawal the subprotocol dispatches is paid
for by whole units of the pool, and every deposit reported to it is counted. -/

namespace Asm
open Outcome

/-! ### Units -/

def Payable (denomination : Nat) (intents : List WithdrawalIntent) : Prop :=
  ∀ intent ∈ intents, (intent.denominationUnits denomination).isSome

def totalUnits (denomination : Nat) (intents : List WithdrawalIntent) : Nat :=
  (intents.map fun intent => (intent.denominationUnits denomination).getD 0).sum

@[simp] theorem totalUnits_nil (denomination : Nat) : totalUnits denomination [] = 0 := rfl

@[simp] theorem totalUnits_append (denomination : Nat) (intents more : List WithdrawalIntent) :
    totalUnits denomination (intents ++ more) =
      totalUnits denomination intents + totalUnits denomination more := by
  simp [totalUnits]

theorem payable_append {denomination : Nat} {intents more : List WithdrawalIntent}
    (first : Payable denomination intents) (rest : Payable denomination more) :
    Payable denomination (intents ++ more) := fun intent mem =>
  (List.mem_append.mp mem).elim (first intent) (rest intent)

theorem payable_zero {intents : List WithdrawalIntent} (payable : Payable 0 intents) : intents = [] := by
  cases intents with
  | nil => rfl
  | cons intent intents => simpa [WithdrawalIntent.denominationUnits] using payable intent (.head _)

/-! ### Withdrawals -/

theorem addUnits_some {denomination : Nat} {intent : WithdrawalIntent} {required : Option Nat}
    {total : Nat} (h : DepositPool.addUnits denomination required intent = .ok (some total)) :
    ∃ base units, required = some base ∧ intent.denominationUnits denomination = some units ∧
      total = base + units := by
  unfold DepositPool.addUnits at h
  split at h
  · cases h
  · rename_i units counted
    obtain ⟨whole, -⟩ := Option.filter_eq_some_iff.mp counted
    obtain ⟨base, start, sum⟩ := Option.bind_eq_some_iff.mp (Except.ok.inj h)
    unfold checkedAddU64 at sum
    split at sum
    · exact ⟨base, units, start, whole, (Option.some.inj sum).symm⟩
    · cases sum

theorem addUnits_fold {denomination : Nat} {intents : List WithdrawalIntent} {start : Option Nat}
    {total : Nat} (h : intents.foldlM (DepositPool.addUnits denomination) start = .ok (some total)) :
    Payable denomination intents ∧
      ∃ base, start = some base ∧ total = base + totalUnits denomination intents := by
  induction intents generalizing start with
  | nil =>
    cases pure_ok h
    exact ⟨nofun, total, rfl, rfl⟩
  | cons intent intents ih =>
    rw [List.foldlM_cons] at h
    obtain ⟨next, added, h⟩ := bind_ok h
    obtain ⟨payable, sum, rfl, total⟩ := ih h
    obtain ⟨base, units, rfl, whole, rfl⟩ := addUnits_some added
    refine ⟨List.forall_mem_cons.mpr ⟨by rw [whole]; rfl, payable⟩, base, rfl, ?_⟩
    simp only [totalUnits, List.map_cons, List.sum_cons, whole, Option.getD_some] at total ⊢
    omega

/-- The pool covers the withdrawals of an accepted checkpoint unit by unit. -/
theorem verifyWithdrawals_ok {pool : DepositPool} {intents : List WithdrawalIntent} {remaining : Nat}
    (h : pool.verifyWithdrawals intents = .ok (.ok remaining)) :
    Payable pool.denomination intents ∧
      remaining + totalUnits pool.denomination intents = pool.count := by
  unfold DepositPool.verifyWithdrawals at h
  split at h
  · rename_i empty
    cases pure_ok h
    rw [List.isEmpty_iff.mp empty]
    exact ⟨nofun, rfl⟩
  · split at h
    · obtain ⟨_, _, h⟩ := bind_ok (pure_ok h)
      cases h
    · split at h
      · cases pure_ok h
      · rename_i required summed
        split at h
        · rename_i total covered
          cases pure_ok h
          obtain ⟨rfl, enough⟩ := Option.filter_eq_some_iff.mp covered
          obtain ⟨payable, base, start, rfl⟩ := addUnits_fold summed
          cases start
          have enough := of_decide_eq_true enough
          exact ⟨payable, by omega⟩
        · obtain ⟨_, _, h⟩ := bind_ok h
          obtain ⟨_, _, h⟩ := bind_ok (pure_ok h)
          cases h

/-! ### Messages -/

def dispatches (msgs : List BridgeIncomingMsg) : List WithdrawalIntent :=
  msgs.filterMap fun msg =>
    match msg with
    | .dispatchWithdrawal intent => some intent
    | _ => none

@[simp] theorem dispatches_append (msgs more : List BridgeIncomingMsg) :
    dispatches (msgs ++ more) = dispatches msgs ++ dispatches more := by
  simp [dispatches]

namespace DepositPool

/-- What is left of the pool once withdrawals have been dispatched. -/
structure Draws (pool after : DepositPool) (sent : List WithdrawalIntent) : Prop where
  denomination : after.denomination = pool.denomination
  payable : Payable pool.denomination sent
  count : after.count + totalUnits pool.denomination sent = pool.count

theorem draws_nil (pool : DepositPool) : pool.Draws pool [] := ⟨rfl, nofun, rfl⟩

theorem Draws.trans {pool middle after : DepositPool} {sent more : List WithdrawalIntent}
    (first : pool.Draws middle sent) (rest : middle.Draws after more) :
    pool.Draws after (sent ++ more) := by
  obtain ⟨denomination, payable, count⟩ := rest
  rw [first.denomination] at denomination payable count
  refine ⟨denomination, payable_append first.payable payable, ?_⟩
  have start := first.count
  rw [totalUnits_append]
  omega

/-- The deposits counted are of the given denomination, which the first of them fixes. -/
def Uniform (pool : DepositPool) (denomination : Nat) : Prop :=
  pool.denomination = denomination ∨ pool = newEmpty

/-- Withdrawals are paid in units of that denomination: an untouched pool pays for none. -/
theorem Draws.uniform {pool after : DepositPool} {sent : List WithdrawalIntent} {denomination : Nat}
    (draws : pool.Draws after sent) (uniform : pool.Uniform denomination) :
    Payable denomination sent ∧ after.count + totalUnits denomination sent = pool.count ∧
      after.Uniform denomination := by
  rcases uniform with rfl | rfl
  · exact ⟨draws.payable, draws.count, .inl draws.denomination⟩
  · obtain rfl : sent = [] := payable_zero draws.payable
    have same : after = newEmpty := by
      obtain ⟨denomination, count⟩ := after
      exact congr (congrArg DepositPool.mk draws.denomination) draws.count
    exact ⟨nofun, draws.count, .inr same⟩

theorem record_ok {pool after : DepositPool} {amount : Nat} (uniform : pool.Uniform amount)
    (h : pool.record amount = .ok after) : after = ⟨amount, pool.count + 1⟩ := by
  unfold record at h
  split at h
  · obtain ⟨count, added, h⟩ := bind_ok h
    cases pure_ok h
    rw [(addU32_ok added).1]
  · rename_i started
    rcases uniform with rfl | rfl
    · rw [if_neg (by simp)] at h
      obtain ⟨count, added, h⟩ := bind_ok h
      cases pure_ok h
      rw [(addU32_ok added).1]
    · exact absurd rfl started

end DepositPool
end Asm
