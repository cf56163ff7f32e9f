import Mathlib.Algebra.Order.Ring.Int
import Mathlib.Data.List.Count
import Mathlib.Logic.Function.Basic
import MyCursor.Transitions

/-!
# Leases of upstream routes

The routes of `cursor/transport/registry.rs` that stand for requests served
upstream. A route is marked, leased while a response is streamed, and removed by
a delayed expiry when nobody leases it. Generations and epochs are `u64` and
wrap.
-/
namespace MyCursor.UpstreamRoutes

/-- `u64::wrapping_add(1)`, which is also what `fetch_add` does. -/
def wrapping_succ (n : Nat) : Nat := (n + 1) % 2 ^ 64

/-- A route. The number of its marking, how often it was leased and how often
    its epoch was changed are not part of the code. -/
structure UpstreamRoute where
  generation : Nat
  active : Nat
  epoch : Nat
  mark : Nat
  leased : Nat
  changes : Nat
deriving DecidableEq

/-- An expiry that is waiting, with what was true of its route when it was
    scheduled. -/
structure Expiry where
  request_id : String
  generation : Nat
  epoch : Nat
  mark : Nat
  leased : Nat
  changes : Nat
deriving DecidableEq

/-- `UpstreamRunGuard`, with the marking of the route it was acquired on. -/
structure Lease where
  request_id : String
  generation : Nat
  mark : Nat
deriving DecidableEq

/-- A route that an expiry removed, and the leases on it at that time. -/
structure Removal where
  expiry : Expiry
  route : UpstreamRoute
  leases : Nat
deriving DecidableEq

structure Registry where
  upstream : String → Option UpstreamRoute := fun _ => none
  next_upstream_generation : Nat := 1
  expiries : List Expiry := []
  leases : List Lease := []
  marks : Nat := 0
  removals : List Removal := []

def Registry.live (s : Registry) (request_id : String) (mark : Nat) : Nat :=
  s.leases.countP fun lease => lease.request_id = request_id ∧ lease.mark = mark

def setRoute (s : Registry) (request_id : String) (route : Option UpstreamRoute) : Registry :=
  { s with upstream := Function.update s.upstream request_id route }

/-- `expire_upstream` for the route as it is. -/
def expire_upstream (s : Registry) (request_id : String) (route : UpstreamRoute) : Registry :=
  { s with expiries := s.expiries ++ [⟨request_id,route.generation,route.epoch,route.mark,route.leased,route.changes⟩] }

def mark_upstream (s : Registry) (request_id : String) : Registry :=
  let route : UpstreamRoute := ⟨s.next_upstream_generation,0,0,s.marks,0,0⟩
  expire_upstream { setRoute s request_id (some route) with
    next_upstream_generation := wrapping_succ s.next_upstream_generation, marks := s.marks + 1 } request_id route

def routeOf (s : Registry) (request_id : String) (generation : Nat) : Option UpstreamRoute :=
  (s.upstream request_id).filter fun route => route.generation = generation

def begin_upstream (s : Registry) (request_id : String) (generation : Nat) : Registry :=
  match routeOf s request_id generation with
  | none => s
  | some route =>
    { setRoute s request_id (some { route with
        active := route.active + 1, epoch := wrapping_succ route.epoch
        leased := route.leased + 1, changes := route.changes + 1 }) with
      leases := s.leases ++ [⟨request_id,generation,route.mark⟩] }

/-- What the task that `end_upstream` spawns does. -/
def end_upstream (s : Registry) (request_id : String) (generation : Nat) (complete : Bool) : Registry :=
  match routeOf s request_id generation with
  | none => s
  | some route =>
    if complete then setRoute s request_id none
    else
      let route := { route with active := route.active - 1 }
      if route.active = 0 then
        let route := { route with epoch := wrapping_succ route.epoch, changes := route.changes + 1 }
        expire_upstream (setRoute s request_id (some route)) request_id route
      else setRoute s request_id (some route)

def expire (s : Registry) (expiry : Expiry) : Registry :=
  match s.upstream expiry.request_id with
  | none => s
  | some route =>
    if route.generation = expiry.generation ∧ route.active = 0 ∧ route.epoch = expiry.epoch then
      { setRoute s expiry.request_id none with
        removals := s.removals ++ [⟨expiry,route,s.live expiry.request_id route.mark⟩] }
    else s

/-- A lease is released once; an expiry fires once, at any time. -/
inductive Action where
  | mark_upstream (request_id : String)
  | begin_upstream (request_id : String) (generation : Nat)
  | release (lease : Lease) (complete : Bool)
  | expire (expiry : Expiry)
  | shutdown
deriving DecidableEq

def step (s : Registry) : Action → Registry
  | .mark_upstream request_id => mark_upstream s request_id
  | .begin_upstream request_id generation => begin_upstream s request_id generation
  | .release lease complete =>
    if lease ∈ s.leases then
      end_upstream { s with leases := s.leases.erase lease } lease.request_id lease.generation complete
    else s
  | .expire expiry =>
    if expiry ∈ s.expiries then expire { s with expiries := s.expiries.erase expiry } expiry else s
  | .shutdown => { s with upstream := fun _ => none }

/-- The expiry was right to remove the route: it is the one that it was
    scheduled for, nobody leased it since, and nobody leases it now. -/
structure Removal.Right (removal : Removal) : Prop where
  same : removal.route.mark = removal.expiry.mark
  notLeased : removal.route.leased = removal.expiry.leased
  unused : removal.leases = 0

/-- The counters do not come around: fewer than `2 ^ 64` routes are marked, and
    the leases of a route change fewer than `2 ^ 64` times while one of its
    expiries waits. -/
def InRange (s : Registry) : Action → Prop
  | .mark_upstream _ => s.marks < 2 ^ 64
  | .expire expiry => ∀ route, s.upstream expiry.request_id = some route → route.changes < expiry.changes + 2 ^ 64
  | _ => True

def generationOf (mark : Nat) : Nat := (1 + mark) % 2 ^ 64

theorem generationOf_inj {a b : Nat} (aLow : a < 2 ^ 64) (bLow : b < 2 ^ 64) (same : generationOf a = generationOf b) : a = b := by
  unfold generationOf at same
  omega

/-- A route stands for a marking, and counts its leases and its epochs. -/
structure RouteOk (s : Registry) (request_id : String) (route : UpstreamRoute) : Prop where
  generation : route.generation = generationOf route.mark
  marked : route.mark < s.marks
  active : route.active = s.live request_id route.mark
  epoch : route.epoch = route.changes % 2 ^ 64

/-- An expiry is not ahead of its route, and as long as the epoch stays the
    route is not leased. -/
structure ExpiryOk (s : Registry) (expiry : Expiry) : Prop where
  generation : expiry.generation = generationOf expiry.mark
  marked : expiry.mark < s.marks
  epoch : expiry.epoch = expiry.changes % 2 ^ 64
  behind : ∀ route, s.upstream expiry.request_id = some route → route.mark = expiry.mark →
    expiry.changes ≤ route.changes ∧ (expiry.changes = route.changes → expiry.leased = route.leased)

structure Inv (s : Registry) : Prop where
  few : s.marks ≤ 2 ^ 64
  next : s.next_upstream_generation = generationOf s.marks
  routes : ∀ request_id route, s.upstream request_id = some route → RouteOk s request_id route
  expiries : ∀ expiry ∈ s.expiries, ExpiryOk s expiry
  leases : ∀ lease ∈ s.leases, lease.generation = generationOf lease.mark ∧ lease.mark < s.marks
  removals : ∀ removal ∈ s.removals, removal.Right

variable {s : Registry}

variable {request_id : String} {route : UpstreamRoute}

theorem routeOf_some {generation : Nat} :
    routeOf s request_id generation = some route ↔ s.upstream request_id = some route ∧ route.generation = generation := by
  simp [routeOf,Option.filter_eq_some_iff]

theorem Inv.mark (inv : Inv s) (few : s.marks < 2 ^ 64) (request_id : String) : Inv (mark_upstream s request_id) := by
  -- No lease is on a marking that is only made now.
  have unleased : s.live request_id s.marks = 0 := by
    rw [Registry.live,List.countP_eq_zero]
    intro lease member
    have := (inv.leases lease member).2
    simp
    omega
  refine ⟨by simp only [mark_upstream,expire_upstream]; omega,?_,?_,?_,?_,inv.removals⟩
  · simp only [mark_upstream,expire_upstream,inv.next,wrapping_succ,generationOf]
    omega
  · intro other route isRoute
    simp only [mark_upstream,expire_upstream,setRoute] at isRoute
    by_cases same : other = request_id
    · subst same
      rw [Function.update_self,Option.some.injEq] at isRoute
      subst isRoute
      exact ⟨inv.next,by simp [mark_upstream,expire_upstream],unleased.symm,rfl⟩
    · rw [Function.update_of_ne same] at isRoute
      have ok := inv.routes other route isRoute
      exact ⟨ok.generation,Nat.lt_succ_of_lt ok.marked,ok.active,ok.epoch⟩
  · intro expiry member
    rcases List.mem_append.mp member with old | new
    · have ok := inv.expiries expiry old
      refine ⟨ok.generation,Nat.lt_succ_of_lt ok.marked,ok.epoch,?_⟩
      intro route isRoute sameMark
      simp only [mark_upstream,expire_upstream,setRoute] at isRoute
      by_cases same : expiry.request_id = request_id
      · rw [same,Function.update_self,Option.some.injEq] at isRoute
        subst isRoute
        exact absurd sameMark (Nat.ne_of_gt ok.marked)
      · rw [Function.update_of_ne same] at isRoute
        exact ok.behind route isRoute sameMark
    · rw [List.mem_singleton] at new
      subst new
      refine ⟨inv.next,Nat.lt_succ_self _,rfl,?_⟩
      intro route isRoute _
      simp only [mark_upstream,expire_upstream,setRoute,Function.update_self,Option.some.injEq] at isRoute
      subst isRoute
      exact ⟨Nat.le_refl _,fun _ => rfl⟩
  · intro lease member
    have ok := inv.leases lease member
    exact ⟨ok.1,Nat.lt_succ_of_lt ok.2⟩

theorem Inv.change (inv : Inv s) {after : UpstreamRoute} {leases : List Lease}
    (isRoute : s.upstream request_id = some route) (generation : after.generation = route.generation)
    (mark : after.mark = route.mark) (changes : route.changes ≤ after.changes)
    (leased : route.changes = after.changes → route.leased = after.leased) (epoch : after.epoch = after.changes % 2 ^ 64)
    (active : after.active = { s with leases := leases }.live request_id route.mark)
    (others : ∀ other mark, other ≠ request_id → { s with leases := leases }.live other mark = s.live other mark)
    (known : ∀ lease ∈ leases, lease.generation = generationOf lease.mark ∧ lease.mark < s.marks) :
    Inv { setRoute s request_id (some after) with leases } := by
  have ok := inv.routes request_id route isRoute
  refine ⟨inv.few,inv.next,?_,?_,known,inv.removals⟩
  · intro other route' isOther
    simp only [setRoute] at isOther
    by_cases same : other = request_id
    · subst same
      rw [Function.update_self,Option.some.injEq] at isOther
      subst isOther
      exact ⟨by rw [generation,mark,ok.generation],by rw [mark]; exact ok.marked,by rw [mark]; exact active,epoch⟩
    · rw [Function.update_of_ne same] at isOther
      have okOther := inv.routes other route' isOther
      exact ⟨okOther.generation,okOther.marked,okOther.active.trans (others other _ same).symm,okOther.epoch⟩
  · intro expiry member
    have okExpiry := inv.expiries expiry member
    refine ⟨okExpiry.generation,okExpiry.marked,okExpiry.epoch,?_⟩
    intro route' isOther sameMark
    simp only [setRoute] at isOther
    by_cases same : expiry.request_id = request_id
    · rw [same,Function.update_self,Option.some.injEq] at isOther
      subst isOther
      rw [mark] at sameMark
      obtain ⟨behind,unleased⟩ := okExpiry.behind route (same ▸ isRoute) sameMark
      refine ⟨by omega,fun isSame => ?_⟩
      exact (unleased (by omega)).trans (leased (by omega))
    · rw [Function.update_of_ne same] at isOther
      exact okExpiry.behind route' isOther sameMark

theorem Inv.remove (inv : Inv s) (request_id : String) : Inv (setRoute s request_id none) := by
  have kept : ∀ {other route}, (setRoute s request_id none).upstream other = some route → s.upstream other = some route := by
    intro other route isRoute
    simp only [setRoute] at isRoute
    by_cases same : other = request_id
    · subst same
      simp at isRoute
    · rwa [Function.update_of_ne same] at isRoute
  refine ⟨inv.few,inv.next,?_,?_,inv.leases,inv.removals⟩
  · intro other route isRoute
    have ok := inv.routes other route (kept isRoute)
    exact ⟨ok.generation,ok.marked,ok.active,ok.epoch⟩
  · intro expiry member
    have ok := inv.expiries expiry member
    exact ⟨ok.generation,ok.marked,ok.epoch,fun route isRoute => ok.behind route (kept isRoute)⟩

theorem Inv.schedule (inv : Inv s) (isRoute : s.upstream request_id = some route) : Inv (expire_upstream s request_id route) := by
  have ok := inv.routes request_id route isRoute
  refine ⟨inv.few,inv.next,?_,?_,inv.leases,inv.removals⟩
  · intro other route' isOther
    have okOther := inv.routes other route' isOther
    exact ⟨okOther.generation,okOther.marked,okOther.active,okOther.epoch⟩
  · intro expiry member
    rcases List.mem_append.mp member with old | new
    · have okExpiry := inv.expiries expiry old
      exact ⟨okExpiry.generation,okExpiry.marked,okExpiry.epoch,okExpiry.behind⟩
    · rw [List.mem_singleton] at new
      subst new
      refine ⟨ok.generation,ok.marked,ok.epoch,?_⟩
      intro route' isOther _
      obtain rfl := Option.some.inj (isRoute.symm.trans isOther)
      exact ⟨Nat.le_refl _,fun _ => rfl⟩

theorem wrapping_succ_mod (n : Nat) : wrapping_succ (n % 2 ^ 64) = (n + 1) % 2 ^ 64 := by
  unfold wrapping_succ
  omega

theorem Inv.begin (inv : Inv s) (request_id : String) (generation : Nat) : Inv (begin_upstream s request_id generation) := by
  unfold begin_upstream
  split
  · exact inv
  · rename_i route found
    obtain ⟨isRoute,rfl⟩ := routeOf_some.mp found
    have ok := inv.routes request_id route isRoute
    refine inv.change isRoute rfl rfl (Nat.le_succ _) (by simp) ?_ ?_ ?_ ?_
    · rw [ok.epoch,wrapping_succ_mod]
    · rw [ok.active]
      simp [Registry.live]
    · intro other mark different
      simp [Registry.live,different.symm]
    · intro lease member
      rcases List.mem_append.mp member with old | new
      · exact inv.leases lease old
      · rw [List.mem_singleton] at new
        subst new
        exact ⟨ok.generation,ok.marked⟩

theorem live_erase {lease : Lease} (member : lease ∈ s.leases) (request_id : String) (mark : Nat) :
    { s with leases := s.leases.erase lease }.live request_id mark =
      s.live request_id mark - if lease.request_id = request_id ∧ lease.mark = mark then 1 else 0 := by
  simp [Registry.live,List.countP_erase,member]

theorem Inv.release (inv : Inv s) {lease : Lease} (member : lease ∈ s.leases) (complete : Bool) :
    Inv (end_upstream { s with leases := s.leases.erase lease } lease.request_id lease.generation complete) := by
  have known : ∀ left ∈ s.leases.erase lease, left.generation = generationOf left.mark ∧ left.mark < s.marks :=
    fun left isLeft => inv.leases left (List.mem_of_mem_erase isLeft)
  obtain ⟨isGeneration,isMarked⟩ := inv.leases lease member
  have elsewhere : ∀ other mark, other ≠ lease.request_id →
      { s with leases := s.leases.erase lease }.live other mark = s.live other mark := by
    intro other mark different
    rw [live_erase member,if_neg (fun same => different same.1.symm),Nat.sub_zero]
  have marks := inv.few
  unfold end_upstream
  split
  · rename_i noRoute
    -- The lease is on a route that is gone, so no other count changes.
    refine ⟨inv.few,inv.next,?_,?_,known,inv.removals⟩
    · intro request_id route isRoute
      have ok := inv.routes request_id route isRoute
      refine ⟨ok.generation,ok.marked,?_,ok.epoch⟩
      rw [ok.active,live_erase member,if_neg,Nat.sub_zero]
      rintro ⟨rfl,sameMark⟩
      refine Option.some_ne_none route (Eq.trans (Eq.symm ?_) noRoute)
      exact routeOf_some.mpr ⟨isRoute,by rw [ok.generation,isGeneration,sameMark]⟩
    · intro expiry isExpiry
      have ok := inv.expiries expiry isExpiry
      exact ⟨ok.generation,ok.marked,ok.epoch,ok.behind⟩
  · rename_i route found
    obtain ⟨isRoute,sameGeneration⟩ := routeOf_some.mp found
    have ok := inv.routes lease.request_id route isRoute
    have sameMark : lease.mark = route.mark :=
      generationOf_inj (by omega) (by have := ok.marked; omega) (isGeneration ▸ ok.generation ▸ sameGeneration.symm)
    have active : route.active - 1 = { s with leases := s.leases.erase lease }.live lease.request_id route.mark := by
      rw [live_erase member,if_pos ⟨rfl,sameMark⟩,ok.active]
    have kept : ∀ after : UpstreamRoute, after.generation = route.generation → after.mark = route.mark →
        route.changes ≤ after.changes → after.leased = route.leased → after.epoch = after.changes % 2 ^ 64 →
        after.active = route.active - 1 →
        Inv { setRoute s lease.request_id (some after) with leases := s.leases.erase lease } := by
      intro after generation mark changes leased epoch left
      exact inv.change isRoute generation mark changes (fun _ => leased.symm) epoch (left.trans active) elsewhere known
    split_ifs with isComplete
    · have removed := (kept { route with active := route.active - 1 } rfl rfl (Nat.le_refl _) rfl ok.epoch rfl).remove
        lease.request_id
      simpa [setRoute] using removed
    · dsimp only
      split_ifs
      · refine Inv.schedule (kept { route with
          active := route.active - 1, epoch := wrapping_succ route.epoch, changes := route.changes + 1 } rfl rfl
            (Nat.le_succ _) rfl ?_ rfl) (by simp [setRoute])
        rw [ok.epoch,wrapping_succ_mod]
      · exact kept { route with active := route.active - 1 } rfl rfl (Nat.le_refl _) rfl ok.epoch rfl

theorem ExpiryOk.right {expiry : Expiry} (few : s.marks ≤ 2 ^ 64) (okExpiry : ExpiryOk s expiry)
    (isRoute : s.upstream expiry.request_id = some route) (ok : RouteOk s expiry.request_id route)
    (inRange : route.changes < expiry.changes + 2 ^ 64) (sameGeneration : route.generation = expiry.generation)
    (inactive : route.active = 0) (sameEpoch : route.epoch = expiry.epoch) :
    Removal.Right ⟨expiry,route,s.live expiry.request_id route.mark⟩ := by
  have marked := ok.marked
  have scheduled := okExpiry.marked
  have sameMark : route.mark = expiry.mark :=
    generationOf_inj (by omega) (by omega) (ok.generation ▸ okExpiry.generation ▸ sameGeneration)
  obtain ⟨behind,unleased⟩ := okExpiry.behind route isRoute sameMark
  have unchanged : expiry.changes = route.changes := by
    rw [ok.epoch,okExpiry.epoch] at sameEpoch
    omega
  exact ⟨sameMark,(unleased unchanged).symm,ok.active.symm.trans inactive⟩

theorem Inv.erase (inv : Inv s) (expiry : Expiry) : Inv { s with expiries := s.expiries.erase expiry } := by
  refine ⟨inv.few,inv.next,?_,?_,inv.leases,inv.removals⟩
  · intro request_id route isRoute
    have ok := inv.routes request_id route isRoute
    exact ⟨ok.generation,ok.marked,ok.active,ok.epoch⟩
  · intro left member
    have ok := inv.expiries left (List.mem_of_mem_erase member)
    exact ⟨ok.generation,ok.marked,ok.epoch,ok.behind⟩

theorem Inv.expire (inv : Inv s) {expiry : Expiry} (member : expiry ∈ s.expiries)
    (inRange : ∀ route, s.upstream expiry.request_id = some route → route.changes < expiry.changes + 2 ^ 64) :
    Inv (expire { s with expiries := s.expiries.erase expiry } expiry) := by
  have erased := inv.erase expiry
  unfold UpstreamRoutes.expire
  split
  · exact erased
  · rename_i route isRoute
    split_ifs with due
    · have removed := erased.remove expiry.request_id
      have right := (inv.expiries expiry member).right inv.few isRoute (inv.routes _ route isRoute) (inRange route isRoute)
        due.1 due.2.1 due.2.2
      refine ⟨removed.few,removed.next,?_,?_,removed.leases,?_⟩
      · intro request_id route' isOther
        have ok := removed.routes request_id route' isOther
        exact ⟨ok.generation,ok.marked,ok.active,ok.epoch⟩
      · intro left isLeft
        have ok := removed.expiries left isLeft
        exact ⟨ok.generation,ok.marked,ok.epoch,ok.behind⟩
      · intro removal isRemoval
        rcases List.mem_append.mp isRemoval with old | new
        · exact inv.removals removal old
        · rw [List.mem_singleton] at new
          exact new ▸ right
    · exact erased

theorem Inv.step (inv : Inv s) {action : Action} (inRange : InRange s action) : Inv (step s action) := by
  cases action with
  | mark_upstream request_id => exact inv.mark inRange request_id
  | begin_upstream request_id generation => exact inv.begin request_id generation
  | release lease complete =>
    simp only [UpstreamRoutes.step]
    split_ifs with member
    · exact inv.release member complete
    · exact inv
  | expire expiry =>
    simp only [UpstreamRoutes.step]
    split_ifs with member
    · exact inv.expire member inRange
    · exact inv
  | shutdown =>
    refine ⟨inv.few,inv.next,by simp [UpstreamRoutes.step],?_,inv.leases,inv.removals⟩
    intro expiry member
    have ok := inv.expiries expiry member
    exact ⟨ok.generation,ok.marked,ok.epoch,by simp [UpstreamRoutes.step]⟩

/-- As long as the counters do not come around, an expiry removes only the route
    that it was scheduled for, when nobody leased it since and nobody leases it. -/
theorem expiries_right (actions : List Action) (inRange : Transitions.Meets step InRange {} actions) :
    ∀ removal ∈ (Transitions.after step {} actions).removals, removal.Right := by
  have start : Inv {} := ⟨by simp,rfl,by simp,by simp,by simp,by simp⟩
  exact (inRange.invariant start fun _ _ inv allowed => inv.step allowed).removals

def lease : Lease := ⟨"r",1,0⟩
/-- The first expiry fires while the route is leased, the second after it. -/
def leasedAgain : List Action :=
  [.mark_upstream "r",.begin_upstream "r" 1,.expire ⟨"r",1,0,0,0,0⟩,.release lease false,.expire ⟨"r",1,2,0,1,2⟩]

theorem expiries_right_leasedAgain : (∀ removal ∈ (Transitions.after step {} leasedAgain).removals, removal.Right) ∧
      (Transitions.after step {} leasedAgain).removals.map (·.expiry.epoch) = [2] := by
  refine ⟨expiries_right leasedAgain ?_,rfl⟩
  refine ⟨?_,trivial,?_,trivial,?_,trivial⟩
  · simp [InRange]
  · rintro route ⟨⟩
    simp
  · rintro route ⟨⟩
    simp

/-- The route is leased and released `n` times. -/
def leases : Nat → List Action
  | 0 => []
  | n + 1 => leases n ++ [.begin_upstream "r" 1,.release lease false]

theorem after_leases (n : Nat) : ∃ expiries : List Expiry,
    Transitions.after step {} (.mark_upstream "r" :: leases n) =
      { upstream := Function.update (fun _ => none) "r" (some ⟨1,0,2 * n % 2 ^ 64,0,n,2 * n⟩)
        next_upstream_generation := 2, marks := 1, expiries := ⟨"r",1,0,0,0,0⟩ :: expiries } := by
  induction n with
  | zero => exact ⟨[],by simp [leases,Transitions.after,step,mark_upstream,expire_upstream,setRoute,wrapping_succ]⟩
  | succ n ih =>
    obtain ⟨expiries,isAfter⟩ := ih
    rw [leases,← List.cons_append,Transitions.after_append,isAfter]
    refine ⟨expiries ++ [⟨"r",1,2 * (n + 1) % 2 ^ 64,0,n + 1,2 * (n + 1)⟩],?_⟩
    have epoch : wrapping_succ (wrapping_succ (2 * n % 2 ^ 64)) = 2 * (n + 1) % 2 ^ 64 := by
      rw [wrapping_succ_mod,wrapping_succ_mod]
      rfl
    simp [-Nat.reducePow,step,begin_upstream,end_upstream,routeOf,setRoute,expire_upstream,lease,epoch,Option.filter,Nat.mul_add]

/-- After `2 ^ 63` leases the epoch is zero again, and the expiry of the marking
    removes a route that was leased since. -/
theorem epoch_comes_around :
    ∃ removal ∈ (Transitions.after step {} ((.mark_upstream "r" :: leases (2 ^ 63)) ++ [.expire ⟨"r",1,0,0,0,0⟩])).removals,
      removal.expiry.leased = 0 ∧ removal.route.leased = 2 ^ 63 ∧ ¬ removal.Right := by
  obtain ⟨expiries,isAfter⟩ := after_leases (2 ^ 63)
  rw [Transitions.after_append,isAfter]
  refine ⟨⟨⟨"r",1,0,0,0,0⟩,⟨1,0,0,0,2 ^ 63,2 ^ 64⟩,0⟩,?_,rfl,rfl,?_⟩
  · simp [step,expire,setRoute,Registry.live]
  · intro right
    exact absurd right.notLeased (by simp)

end MyCursor.UpstreamRoutes
