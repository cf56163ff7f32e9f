import Mathlib.Tactic.Common

/-!
# Results that may be errors

When a chain of computations that may fail returns a value, and when it returns
at all.
-/
namespace Fallible

variable {ε α β : Type}

variable {x : Except ε α} {f : α → Except ε β}

theorem bind_ok {b : β} : (x >>= f) = .ok b ↔ ∃ a, x = .ok a ∧ f a = .ok b := by
  cases x with
  | error e => exact ⟨nofun,fun ⟨_,failed,_⟩ => nomatch failed⟩
  | ok a =>
    constructor
    · exact fun same => ⟨a,rfl,same⟩
    · rintro ⟨_,isOk,same⟩
      cases isOk
      exact same
theorem map_ok {f : α → β} {b : β} : x.map f = .ok b ↔ ∃ a, x = .ok a ∧ f a = b := by
  cases x with
  | error e => exact ⟨nofun,fun ⟨_,failed,_⟩ => nomatch failed⟩
  | ok a =>
    constructor
    · exact fun same => ⟨a,rfl,Except.ok.inj same⟩
    · rintro ⟨_,isOk,rfl⟩
      cases isOk
      rfl

theorem mapError_ok {δ : Type} {f : ε → δ} {a : α} : x.mapError f = .ok a ↔ x = .ok a := by
  cases x with
  | error e => exact ⟨nofun,nofun⟩
  | ok b => exact ⟨fun isOk => congrArg _ (Except.ok.inj isOk),fun isOk => congrArg _ (Except.ok.inj isOk)⟩

def Succeeds (x : Except ε α) : Prop := ∃ a, x = .ok a

theorem succeeds_ok {a : α} : Succeeds (.ok a : Except ε α) := ⟨a,rfl⟩
theorem succeeds_error {e : ε} : ¬ Succeeds (.error e : Except ε α) := nofun
theorem succeeds_bind : Succeeds (x >>= f) ↔ ∃ a, x = .ok a ∧ Succeeds (f a) := by
  constructor
  · rintro ⟨b,isOk⟩
    obtain ⟨a,isA,same⟩ := bind_ok.mp isOk
    exact ⟨a,isA,b,same⟩
  · rintro ⟨a,isA,b,same⟩
    exact ⟨b,bind_ok.mpr ⟨a,isA,same⟩⟩
theorem succeeds_bind_ok (always : ∀ a, Succeeds (f a)) : Succeeds (x >>= f) ↔ Succeeds x := by
  rw [succeeds_bind]
  exact ⟨fun ⟨a,isOk,_⟩ => ⟨a,isOk⟩,fun ⟨a,isOk⟩ => ⟨a,isOk,always a⟩⟩
theorem succeeds_bind_and {P : Prop} (rest : ∀ a, Succeeds (f a) ↔ P) : Succeeds (x >>= f) ↔ Succeeds x ∧ P := by
  rw [succeeds_bind]
  exact ⟨fun ⟨a,isOk,succeeds⟩ => ⟨⟨a,isOk⟩,(rest a).mp succeeds⟩,fun ⟨⟨a,isOk⟩,holds⟩ => ⟨a,isOk,(rest a).mpr holds⟩⟩
theorem succeeds_mapM {items : List α} : Succeeds (items.mapM f) ↔ ∀ item ∈ items, Succeeds (f item) := by
  induction items with
  | nil => exact ⟨fun _ => nofun,fun _ => ⟨[],rfl⟩⟩
  | cons item rest ih =>
    have tail : ∀ b, Succeeds (rest.mapM f >>= fun bs => pure (b :: bs)) ↔ Succeeds (rest.mapM f) :=
      fun b => succeeds_bind_ok fun bs => ⟨b :: bs,rfl⟩
    rw [List.mapM_cons,succeeds_bind_and tail,ih,List.forall_mem_cons]
theorem succeeds_map {f : α → β} : Succeeds (x.map f) ↔ Succeeds x := by
  cases x with
  | error e => exact iff_of_false succeeds_error succeeds_error
  | ok a => exact iff_of_true succeeds_ok succeeds_ok

end Fallible
