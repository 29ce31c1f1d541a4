-- What the functions of proxies do to the references of a process whose counts are known:
-- the callbacks, the flush and the temporary references it releases.
import SystemBinder.Proxies
import SystemBinder.RefCounts

open prog

namespace system_binder

namespace Process

/-! ## References in all -/

/-- The references on each object: strong ones, other weak ones, and whether it ever had a strong
one. -/
structure Totals where
  strong : Nat → Nat
  weak : Nat → Nat
  owned : Nat → Bool

namespace Totals

/-- The strong count of an object, nothing before the first reference. -/
def count (t : Totals) (a : Nat) : Option Nat := if t.owned a = true then some (t.strong a) else none

/-- With `n` strong references on `a`. -/
def setStrong (t : Totals) (a n : Nat) : Totals :=
  { t with strong := Function.update t.strong a n, owned := Function.update t.owned a true }

/-- With `n` other weak references on `a`. -/
def setWeak (t : Totals) (a n : Nat) : Totals :=
  { t with weak := Function.update t.weak a n }

@[simp] theorem strong_setStrong (t : Totals) (a n : Nat) : (t.setStrong a n).strong a = n := by
  simp [setStrong]
@[simp] theorem owned_setStrong (t : Totals) (a n : Nat) : (t.setStrong a n).owned a = true := by
  simp [setStrong]
@[simp] theorem weak_setStrong (t : Totals) (a n : Nat) : (t.setStrong a n).weak = t.weak := rfl
@[simp] theorem weak_setWeak (t : Totals) (a n : Nat) : (t.setWeak a n).weak a = n := by
  simp [setWeak]
@[simp] theorem strong_setWeak (t : Totals) (a n : Nat) : (t.setWeak a n).strong = t.strong := rfl
@[simp] theorem owned_setWeak (t : Totals) (a n : Nat) : (t.setWeak a n).owned = t.owned := rfl
@[simp] theorem count_setWeak (t : Totals) (a n : Nat) : (t.setWeak a n).count = t.count := rfl

theorem strong_setStrong_ne (t : Totals) {a b : Nat} (n : Nat) (h : b ≠ a) :
    (t.setStrong a n).strong b = t.strong b := by simp [setStrong, h]
theorem owned_setStrong_ne (t : Totals) {a b : Nat} (n : Nat) (h : b ≠ a) :
    (t.setStrong a n).owned b = t.owned b := by simp [setStrong, h]
theorem weak_setWeak_ne (t : Totals) {a b : Nat} (n : Nat) (h : b ≠ a) :
    (t.setWeak a n).weak b = t.weak b := by simp [setWeak, h]

theorem grows_setStrong (t : Totals) (a n b : Nat) (h : t.owned b = true) :
    (t.setStrong a n).owned b = true := by
  by_cases hba : b = a
  · subst hba
    exact owned_setStrong t b n
  · rw [owned_setStrong_ne t n hba]
    exact h

@[simp] theorem setWeak_setWeak (t : Totals) (a n m : Nat) :
    (t.setWeak a n).setWeak a m = t.setWeak a m := by simp [setWeak]
@[simp] theorem setWeak_self (t : Totals) (a : Nat) : t.setWeak a (t.weak a) = t := by
  simp [setWeak]

@[simp] theorem count_setStrong (t : Totals) (a n : Nat) : (t.setStrong a n).count a = some n := by
  simp [count]

theorem count_setStrong_ne (t : Totals) {a b : Nat} (n : Nat) (h : b ≠ a) :
    (t.setStrong a n).count b = t.count b := by
  unfold count
  rw [owned_setStrong_ne t n h, strong_setStrong_ne t n h]

/-- The count of an object with a strong reference. -/
theorem count_of_owned {t : Totals} {a : Nat} (h : t.owned a = true) :
    t.count a = some (t.strong a) := by simp [count, h]

end Totals

/-- The counts of all objects are those of `t`, all below `MAX_COUNT`. -/
structure Has (t : Totals) (s : Process) : Prop where
  refs : ∀ a, (s.objects a).refs =
    counts (s.objects a).refs.mFlags (t.count a) (t.strong a + t.weak a)
  fresh : ∀ a, t.owned a = false → t.strong a = 0
  small : ∀ a, t.strong a + t.weak a < 2 ^ 20

/-- What the functions of proxies leave alone. -/
structure Fixed where
  thread : ThreadState
  mIsLooper : Bool
  mIsFlushing : Bool
  mDriverFD : Int
  handles : Nat → Option (BitVec 32)
  modes : Nat → BitVec 32
  next : Nat
  mContextObject : Nat
  mHandleToObject : VectorBase Nat
  entries : List HandleEntry
  throttled : Bool
  pingStatus : Int
  granted : Bool

def fixed (s : Process) : Fixed where
  thread := s.thread
  mIsLooper := s.mIsLooper
  mIsFlushing := s.mIsFlushing
  mDriverFD := s.mDriverFD
  handles := fun a => (s.objects a).binder_handle
  modes := fun a => (s.objects a).refs.mFlags
  next := s.next
  mContextObject := s.mContextObject
  mHandleToObject := s.mHandleToObject
  entries := s.entries
  throttled := s.throttled
  pingStatus := s.pingStatus
  granted := s.granted

variable {t : Totals} {s : Process} {k : Knot} {a : Nat} {E : Fault → Prop}

theorem Has.owned (h : Has t s) (hpos : 0 < t.strong a) : t.owned a = true := by
  cases ho : t.owned a with
  | true => rfl
  | false =>
    have hzero := h.fresh a ho
    omega

/-- Other counts for one object. -/
theorem objects_putRefs (r : WeakrefImpl) (b : Nat) :
    ((putRefs a r s).objects b).refs = if b = a then r else (s.objects b).refs := by
  unfold putRefs
  by_cases h : b = a
  · subst h
    simp
  · simp [h]

@[simp] theorem handle_putRefs (r : WeakrefImpl) (b : Nat) :
    ((putRefs a r s).objects b).binder_handle = (s.objects b).binder_handle := by
  unfold putRefs
  by_cases h : b = a
  · subst h
    simp
  · simp [h]

theorem fixed_putRefs {c : Option Nat} {w : Nat} :
    (putRefs a (counts (s.objects a).refs.mFlags c w) s).fixed = s.fixed := by
  unfold fixed putRefs
  congr 1
  · funext b
    by_cases h : b = a
    · subst h
      simp
    · simp [h]
  · funext b
    by_cases h : b = a
    · subst h
      simp [counts]
    · simp [h]

/-- The counts after `n` strong references on `a` instead. -/
theorem Has.putStrong (h : Has t s) {n w : Nat} (hw : w = n + t.weak a) (hn : n + t.weak a < 2 ^ 20) :
    Has (t.setStrong a n) (putRefs a (counts (s.objects a).refs.mFlags (some n) w) s) := by
  refine ⟨fun b => ?_, fun b hb => ?_, fun b => ?_⟩
  · rw [objects_putRefs]
    by_cases hba : b = a
    · subst hba
      rw [if_pos rfl, Totals.count_setStrong, Totals.strong_setStrong, Totals.weak_setStrong, hw]
      rfl
    · rw [if_neg hba, Totals.count_setStrong_ne t n hba, Totals.strong_setStrong_ne t n hba]
      exact h.refs b
  · by_cases hba : b = a
    · subst hba
      rw [Totals.owned_setStrong] at hb
      cases hb
    · rw [Totals.owned_setStrong_ne t n hba] at hb
      rw [Totals.strong_setStrong_ne t n hba]
      exact h.fresh b hb
  · by_cases hba : b = a
    · subst hba
      rw [Totals.strong_setStrong]
      exact hn
    · rw [Totals.strong_setStrong_ne t n hba]
      exact h.small b

/-- The counts after `n` other weak references on `a` instead. -/
theorem Has.putWeak (h : Has t s) {n w : Nat} (hw : w = t.strong a + n)
    (hn : t.strong a + n < 2 ^ 20) :
    Has (t.setWeak a n) (putRefs a (counts (s.objects a).refs.mFlags (t.count a) w) s) := by
  refine ⟨fun b => ?_, h.fresh, fun b => ?_⟩
  · rw [objects_putRefs]
    by_cases hba : b = a
    · subst hba
      rw [if_pos rfl, Totals.weak_setWeak, hw]
      rfl
    · rw [if_neg hba, Totals.weak_setWeak_ne t n hba]
      exact h.refs b
  · by_cases hba : b = a
    · subst hba
      rw [Totals.weak_setWeak]
      exact hn
    · rw [Totals.weak_setWeak_ne t n hba]
      exact h.small b

/-- Only the counts matter. -/
theorem Has.congr {s' : Process} (h : Has t s) (ho : s'.objects = s.objects) : Has t s' := by
  refine ⟨fun a => ?_, h.fresh, h.small⟩
  rw [ho]
  exact h.refs a

/-! ## The counting operations -/

section

variable {Q : Unit → Process → Prop}

@[simp] theorem wp_thisProcess {Q : Process → Process → Prop} :
    wp thisProcess Q E s ↔ Q s s := Iff.rfl

@[simp] theorem wp_update {f : Process → Process} : wp (update f) Q E s ↔ Q () (f s) := Iff.rfl

theorem incWeak.spec (h : Has t s) :
    wp (refBase k a).incWeak Q E s ↔ Q () (putRefs a
      (counts (s.objects a).refs.mFlags (t.count a) (t.strong a + (t.weak a + 1))) s) := by
  have hsmall := h.small a
  rw [RefBase.incWeak.spec (h.refs a) (by omega)]
  exact Iff.rfl

theorem decWeak.spec (h : Has t s) (hpos : 0 < t.weak a) :
    wp (refBase k a).decWeak Q E s ↔ Q () (putRefs a
      (counts (s.objects a).refs.mFlags (t.count a) (t.strong a + (t.weak a - 1))) s) := by
  have hsum : t.strong a + t.weak a = t.strong a + (t.weak a - 1) + 1 := by omega
  have hsmall := h.small a
  rw [RefBase.decWeak.spec (by rw [← hsum]; exact h.refs a) (by omega)]
  split
  · exact Iff.rfl
  · exact Iff.rfl

/-- One strong reference less, while others stay. -/
theorem decStrong.spec_more (h : Has t s) (hpos : 1 < t.strong a) :
    wp (refBase k a).decStrong Q E s ↔ Q () (putRefs a
      (counts (s.objects a).refs.mFlags (some (t.strong a - 1)) (t.strong a - 1 + t.weak a)) s) := by
  obtain ⟨m, hm⟩ : ∃ m, t.strong a = m + 2 := ⟨t.strong a - 2, by omega⟩
  have hsmall := h.small a
  have hrefs := h.refs a
  rw [Totals.count_of_owned (h.owned (by omega)), hm] at hrefs
  have hsum : m + 2 + t.weak a = m + t.weak a + 2 := by omega
  rw [hsum] at hrefs
  rw [RefBase.decStrong.spec_more hrefs (by omega) (by omega), hm]
  have hweak : m + 2 - 1 + t.weak a = m + t.weak a + 1 := by omega
  rw [hweak]
  exact Iff.rfl

/-- The last strong reference tells the object. -/
theorem decStrong.spec_last (h : Has t s) (hone : t.strong a = 1) :
    wp (refBase k a).decStrong Q E s ↔ wp (k.onLastStrongRef a)
      (fun _ => wp (refBase k a).decWeak Q E) E (putRefs a
        (counts (s.objects a).refs.mFlags (some 0) (1 + t.weak a)) s) := by
  have hrefs := h.refs a
  rw [Totals.count_of_owned (h.owned (by omega)), hone] at hrefs
  exact RefBase.decStrong.spec_last hrefs

/-- A strong reference more where there is one. -/
theorem incStrong.spec_owned (h : Has t s) (hpos : 0 < t.strong a) :
    wp (refBase k a).incStrong Q E s ↔ Q () (putRefs a
      (counts (s.objects a).refs.mFlags (some (t.strong a + 1)) (t.strong a + 1 + t.weak a)) s) := by
  obtain ⟨m, hm⟩ : ∃ m, t.strong a = m + 1 := ⟨t.strong a - 1, by omega⟩
  have hsmall := h.small a
  have hrefs := h.refs a
  rw [Totals.count_of_owned (h.owned hpos), hm] at hrefs
  rw [RefBase.incStrong.spec_owned hrefs (by omega) (by omega), hm]
  have hweak : m + 1 + t.weak a + 1 = m + 1 + 1 + t.weak a := by omega
  rw [hweak]
  exact Iff.rfl

/-- The first strong reference tells the object. -/
theorem incStrong.spec_first (h : Has t s) (hnew : t.owned a = false) :
    wp (refBase k a).incStrong Q E s ↔ wp (k.onFirstRef a) Q E (putRefs a
      (counts (s.objects a).refs.mFlags (some 1) (1 + t.weak a)) s) := by
  have hzero := h.fresh a hnew
  have hrefs := h.refs a
  have hcount : t.count a = none := by simp [Totals.count, hnew]
  rw [hcount, hzero, Nat.zero_add] at hrefs
  have hsmall := h.small a
  rw [RefBase.incStrong.spec_first hrefs (by omega), Nat.add_comm 1]
  exact Iff.rfl

theorem forceIncStrong.spec_owned (h : Has t s) (hpos : 0 < t.strong a) :
    wp (refBase k a).forceIncStrong Q E s ↔ Q () (putRefs a
      (counts (s.objects a).refs.mFlags (some (t.strong a + 1)) (t.strong a + 1 + t.weak a)) s) := by
  obtain ⟨m, hm⟩ : ∃ m, t.strong a = m + 1 := ⟨t.strong a - 1, by omega⟩
  have hsmall := h.small a
  have hrefs := h.refs a
  rw [Totals.count_of_owned (h.owned hpos), hm] at hrefs
  rw [RefBase.forceIncStrong.spec_owned hrefs (by omega) (by omega), hm]
  have hweak : m + 1 + t.weak a + 1 = m + 1 + 1 + t.weak a := by omega
  rw [hweak]
  exact Iff.rfl

/-- A forced reference where there is none tells the object. -/
theorem forceIncStrong.spec_first (h : Has t s) (hzero : t.strong a = 0) :
    wp (refBase k a).forceIncStrong Q E s ↔ wp (k.onFirstRef a) Q E (putRefs a
      (counts (s.objects a).refs.mFlags (some 1) (1 + t.weak a)) s) := by
  have hrefs := h.refs a
  rw [hzero, Nat.zero_add] at hrefs
  have hsmall := h.small a
  have hnone : strongRefs (t.count a) = 0 := by
    unfold Totals.count
    split
    · exact hzero
    · rfl
  rw [RefBase.forceIncStrong.spec_first hrefs hnone (by omega), Nat.add_comm 1]
  exact Iff.rfl

end

/-! ## Commands of a handle -/

/-- What the driver thinks of a handle after a command: whether the process holds it strongly,
nothing after a command out of turn. -/
def turn (handle : BitVec 32) (held : Bool) (cmd : OutCommand) : Option Bool :=
  if cmd = .BC_ACQUIRE handle then if held = true then none else some true
  else if cmd = .BC_RELEASE handle then if held = true then some false else none
  else some held

/-- The strong commands of a handle alternate, from `held` on. -/
def track (handle : BitVec 32) : Bool → List OutCommand → Option Bool
  | held, [] => some held
  | held, cmd :: cmds => (turn handle held cmd).bind fun next => track handle next cmds

theorem track_append {handle : BitVec 32} {held : Bool} {cmds cmds' : List OutCommand} :
    track handle held (cmds ++ cmds') =
      (track handle held cmds).bind fun next => track handle next cmds' := by
  induction cmds generalizing held with
  | nil => rfl
  | cons cmd cmds ih =>
    show (turn handle held cmd).bind (fun next => track handle next (cmds ++ cmds')) =
      ((turn handle held cmd).bind fun next => track handle next cmds).bind _
    rw [Option.bind_assoc]
    congr 1
    funext next
    exact ih

/-- No other object with the handle of `b` ever had a strong reference. -/
def Alone (s : Process) (t : Totals) (b : Nat) (handle : BitVec 32) : Prop :=
  (s.objects b).binder_handle = some handle ∧
    ∀ c, c ≠ b → (s.objects c).binder_handle = some handle → t.owned c = false

/-- No object with this handle ever had a strong reference. -/
def Silent (s : Process) (t : Totals) (handle : BitVec 32) : Prop :=
  ∀ c, (s.objects c).binder_handle = some handle → t.owned c = false

/-- The commands say of each proxy what becomes of its strong references, and nothing of a
handle that never had one. -/
structure Books (s : Process) (t t' : Totals) (cmds : List OutCommand) : Prop where
  grows : ∀ c, t.owned c = true → t'.owned c = true
  silent : ∀ handle, Silent s t' handle →
    .BC_ACQUIRE handle ∉ cmds ∧ .BC_RELEASE handle ∉ cmds
  alternate : ∀ b handle, Alone s t' b handle →
    track handle (decide (0 < t.strong b)) cmds = some (decide (0 < t'.strong b))

/-- Only the handles matter. -/
theorem Books.congr {s' : Process} {t t' : Totals} {cmds : List OutCommand}
    (h : Books s t t' cmds) (ho : s'.objects = s.objects) : Books s' t t' cmds := by
  refine ⟨h.grows, fun handle hsilent => h.silent handle ?_, fun b handle halone =>
    h.alternate b handle ?_⟩
  · unfold Silent at hsilent
    rw [ho] at hsilent
    exact hsilent
  · unfold Alone at halone
    rw [ho] at halone
    exact halone

theorem Books.nil {t t' : Totals} (hgrows : ∀ c, t.owned c = true → t'.owned c = true)
    (h : ∀ b, (s.objects b).binder_handle ≠ none → (0 < t.strong b ↔ 0 < t'.strong b)) :
    Books s t t' [] := by
  refine ⟨hgrows, by simp, fun b handle halone => ?_⟩
  unfold track
  rw [decide_eq_decide.mpr (h b (by rw [halone.1]; simp))]

theorem Books.append {s' : Process} {t t' t'' : Totals} {cmds cmds' : List OutCommand}
    (h : Books s t t' cmds) (h' : Books s' t' t'' cmds')
    (hsame : s'.fixed.handles = s.fixed.handles) : Books s t t'' (cmds ++ cmds') := by
  have hhandle : ∀ c, (s'.objects c).binder_handle = (s.objects c).binder_handle :=
    fun c => congrFun hsame c
  have hback : ∀ c, t''.owned c = false → t'.owned c = false := by
    intro c hnot
    cases howned : t'.owned c with
    | false => rfl
    | true =>
      rw [h'.grows c howned] at hnot
      cases hnot
  refine ⟨fun c hc => h'.grows c (h.grows c hc), fun handle hsilent => ?_,
    fun b handle halone => ?_⟩
  · have hfirst := h.silent handle fun c hc => hback c (hsilent c hc)
    have hsecond := h'.silent handle fun c hc => hsilent c (by rw [← hhandle]; exact hc)
    simp only [List.mem_append, not_or]
    exact ⟨⟨hfirst.1, hsecond.1⟩, hfirst.2, hsecond.2⟩
  have hbefore : Alone s t' b handle :=
    ⟨halone.1, fun c hcb hc => hback c (halone.2 c hcb hc)⟩
  rw [track_append, h.alternate b handle hbefore]
  apply h'.alternate b handle
  refine ⟨by rw [hhandle]; exact halone.1, fun c hcb hc => halone.2 c hcb ?_⟩
  rw [← hhandle]
  exact hc

/-! ## The release of temporary references -/

/-- Without a strong reference for each entry of `items`. -/
def Totals.giveStrong (t : Totals) (items : List Nat) : Totals :=
  { t with strong := fun a => t.strong a - items.count a }

/-- Without a weak reference for each entry of `items`. -/
def Totals.giveWeak (t : Totals) (items : List Nat) : Totals :=
  { t with weak := fun a => t.weak a - items.count a }

@[simp] theorem Totals.giveStrong_nil (t : Totals) : t.giveStrong [] = t := rfl
@[simp] theorem Totals.giveWeak_nil (t : Totals) : t.giveWeak [] = t := rfl

theorem Totals.giveStrong_cons (t : Totals) (a : Nat) (items : List Nat) :
    t.giveStrong (a :: items) = (t.giveStrong [a]).giveStrong items := by
  unfold Totals.giveStrong
  congr 1
  funext b
  simp only [List.count_cons, List.count_nil]
  omega

theorem Totals.giveWeak_cons (t : Totals) (a : Nat) (items : List Nat) :
    t.giveWeak (a :: items) = (t.giveWeak [a]).giveWeak items := by
  unfold Totals.giveWeak
  congr 1
  funext b
  simp only [List.count_cons, List.count_nil]
  omega

theorem Totals.giveStrong_one {t : Totals} {a : Nat} (h : t.owned a = true) :
    t.giveStrong [a] = t.setStrong a (t.strong a - 1) := by
  unfold Totals.giveStrong Totals.setStrong
  congr 1
  · funext b
    by_cases hba : b = a
    · subst hba
      simp
    · simp [hba, Ne.symm hba]
  · funext b
    by_cases hba : b = a
    · subst hba
      simp [h]
    · simp [hba]

theorem Totals.giveWeak_one (t : Totals) (a : Nat) :
    t.giveWeak [a] = t.setWeak a (t.weak a - 1) := by
  unfold Totals.giveWeak Totals.setWeak
  congr 1
  funext b
  by_cases hba : b = a
  · subst hba
    simp
  · simp [hba, Ne.symm hba]

/-- From `s` to `s'` the references `gone` were released, and `cmds` written on that account. -/
structure Drained (t t' : Totals) (s s' : Process) (gone : List TempRef) (cmds : List OutCommand) :
    Prop where
  has : Has t' s'
  same : s'.fixed = s.fixed
  mOut : s'.mOut = s.mOut ++ cmds
  queued : s'.queued = s.queued ++ cmds
  weakDerefs : s'.mPostWriteWeakDerefs = s.mPostWriteWeakDerefs
  strongDerefs : s'.mPostWriteStrongDerefs = s.mPostWriteStrongDerefs
  sent : s'.sent = s.sent
  pushed : s'.pushed = s.pushed
  released : s'.released = s.released ++ gone
  releases : ∀ cmd ∈ cmds, ∃ handle, cmd = .BC_RELEASE handle
  books : Books s t t' cmds

theorem Drained.refl (h : Has t s) : Drained t t s s [] [] where
  has := h
  same := rfl
  mOut := by simp
  queued := by simp
  weakDerefs := rfl
  strongDerefs := rfl
  sent := rfl
  pushed := rfl
  released := by simp
  releases := by simp
  books := Books.nil (fun _ hc => hc) fun _ _ => Iff.rfl

theorem Drained.trans {t t' t'' : Totals} {s s' s'' : Process} {gone gone' : List TempRef}
    {cmds cmds' : List OutCommand} (h : Drained t t' s s' gone cmds)
    (h' : Drained t' t'' s' s'' gone' cmds') :
    Drained t t'' s s'' (gone ++ gone') (cmds ++ cmds') where
  has := h'.has
  same := h'.same.trans h.same
  mOut := by rw [h'.mOut, h.mOut, List.append_assoc]
  queued := by rw [h'.queued, h.queued, List.append_assoc]
  weakDerefs := h'.weakDerefs.trans h.weakDerefs
  strongDerefs := h'.strongDerefs.trans h.strongDerefs
  sent := h'.sent.trans h.sent
  pushed := h'.pushed.trans h.pushed
  released := by rw [h'.released, h.released, List.append_assoc]
  releases := by
    intro cmd hmem
    rcases List.mem_append.mp hmem with hmem | hmem
    · exact h.releases cmd hmem
    · exact h'.releases cmd hmem
  books := h.books.append h'.books (congrArg Fixed.handles h.same)

theorem busy_of_same {s' : Process} (h : s'.fixed = s.fixed) : s'.busy = s.busy := by
  have hlooper : s'.mIsLooper = s.mIsLooper := congrArg Fixed.mIsLooper h
  have hthread : s'.thread = s.thread := congrArg Fixed.thread h
  have hflushing : s'.mIsFlushing = s.mIsFlushing := congrArg Fixed.mIsFlushing h
  unfold busy
  rw [hlooper, hthread, hflushing]

/-- The references `gone` are noted. -/
theorem Drained.noted (h : Has t s) (gone : List TempRef) :
    Drained t t s { s with released := s.released ++ gone } gone [] :=
  { Drained.refl h with has := h.congr rfl, same := rfl, released := rfl }

/-- Other counts alone. -/
theorem Drained.counted {t' : Totals} {c : Option Nat} {w : Nat} (h : Has t s)
    (hhas : Has t' (putRefs a (counts (s.objects a).refs.mFlags c w) s))
    (hgrows : ∀ b, t.owned b = true → t'.owned b = true)
    (hbooks : ∀ b, (s.objects b).binder_handle ≠ none → (0 < t.strong b ↔ 0 < t'.strong b)) :
    Drained t t' s (putRefs a (counts (s.objects a).refs.mFlags c w) s) [] [] :=
  { Drained.refl h with
    has := hhas
    same := fixed_putRefs
    books := Books.nil hgrows hbooks }

/-- One weak reference goes. -/
theorem decWeak_drained (h : Has t s) (hpos : 0 < t.weak a) :
    wp (refBase k a).decWeak (fun _ s' => Drained t (t.giveWeak [a]) s s' [] []) never s := by
  rw [decWeak.spec h hpos]
  have hsmall := h.small a
  apply Drained.counted h
  · rw [Totals.giveWeak_one]
    exact h.putWeak rfl (by omega)
  · intro b hb
    exact hb
  · intro b _
    exact Iff.rfl

/-- A strong reference that is not the last goes. -/
theorem decStrong_drained (h : Has t s) (hpos : 1 < t.strong a) :
    wp (refBase k a).decStrong (fun _ s' => Drained t (t.giveStrong [a]) s s' [] []) never s := by
  rw [decStrong.spec_more h hpos]
  have hsmall := h.small a
  have howned := h.owned (a := a) (by omega)
  apply Drained.counted h
  · rw [Totals.giveStrong_one howned]
    exact h.putStrong rfl (by omega)
  · intro b hb
    exact hb
  · intro b _
    rw [Totals.giveStrong_one howned]
    by_cases hba : b = a
    · subst hba
      rw [Totals.strong_setStrong]
      omega
    · rw [Totals.strong_setStrong_ne t _ hba]

/-- The process after one more command. -/
def wrote (cmd : OutCommand) (s : Process) : Process :=
  { s with mOut := s.mOut ++ [cmd], queued := s.queued ++ [cmd] }

@[simp] theorem wp_write {cmd : OutCommand} {Q : Unit → Process → Prop} :
    wp (write cmd) Q E s ↔ Q () (wrote cmd s) := Iff.rfl

@[simp] theorem fixed_wrote (cmd : OutCommand) : (wrote cmd s).fixed = s.fixed := rfl
@[simp] theorem busy_wrote (cmd : OutCommand) : (wrote cmd s).busy = s.busy := rfl
@[simp] theorem busy_putRefs (r : WeakrefImpl) : (putRefs a r s).busy = s.busy := rfl

theorem flushIfNeeded.spec_busy {Q : Bool → Process → Prop} (hbusy : s.busy = true) :
    wp (flushIfNeeded k) Q E s ↔ Q false s := by
  unfold flushIfNeeded
  rw [wp_bind, wp_thisProcess, if_pos hbusy, wp_pure]

/-- The books after the last strong reference of a proxy. -/
theorem Books.release {t' : Totals} {handle : BitVec 32}
    (hhandle : (s.objects a).binder_handle = some handle) (hpos : 0 < t.strong a)
    (hgrows : ∀ b, t.owned b = true → t'.owned b = true) (howned : t'.owned a = true)
    (hzero : t'.strong a = 0) (hother : ∀ b, b ≠ a → t'.strong b = t.strong b) :
    Books s t t' [.BC_RELEASE handle] := by
  refine ⟨hgrows, fun handle' hsilent => ⟨by simp, ?_⟩, fun b handle' halone => ?_⟩
  · rw [List.mem_singleton, OutCommand.BC_RELEASE.injEq]
    rintro rfl
    rw [hsilent a hhandle] at howned
    cases howned
  by_cases hba : b = a
  · subst hba
    have hsame : handle' = handle := Option.some.inj (halone.1.symm.trans hhandle)
    simp [track, turn, hsame, hpos, hzero]
  · have hne : handle ≠ handle' := by
      intro heq
      have hnot := halone.2 a (Ne.symm hba) (by rw [hhandle, heq])
      rw [howned] at hnot
      cases hnot
    simp [track, turn, hne, hother b hba]

/-- The counts of an object without strong references, while it is told. -/
theorem Has.putLast (h : Has t s) (hone : t.strong a = 1) :
    Has ((t.setStrong a 0).setWeak a (t.weak a + 1))
      (putRefs a (counts (s.objects a).refs.mFlags (some 0) (1 + t.weak a)) s) := by
  have hsmall := h.small a
  have hstrong := h.putStrong (a := a) (n := 0) rfl (by omega)
  have hweak := hstrong.putWeak (a := a) (n := t.weak a + 1) (w := 1 + t.weak a)
    (by simp; omega) (by simp; omega)
  have hput : ∀ r : WeakrefImpl, putRefs a r
      (putRefs a (counts (s.objects a).refs.mFlags (some 0) (0 + t.weak a)) s) = putRefs a r s :=
    fun r => (refBase (knot 0) a).put_put r _ s
  rw [hput, Totals.count_setStrong, objects_putRefs, if_pos rfl] at hweak
  exact hweak

/-- The last strong reference of an object goes, while its thread need not flush. -/
theorem decStrong_last_drained {n : Nat} (h : Has t s) (hone : t.strong a = 1)
    (hbusy : s.busy = true) :
    wp (refBase (knot (n + 1)) a).decStrong (fun _ s' =>
      ∃ cmds, cmds.length ≤ 1 ∧ Drained t (t.giveStrong [a]) s s' [] cmds) never s := by
  have howned := h.owned (a := a) (by omega)
  have hmid := h.putLast hone
  have hend : ((t.setStrong a 0).setWeak a (t.weak a + 1)).giveWeak [a] = t.giveStrong [a] := by
    rw [Totals.giveStrong_one howned, Totals.giveWeak_one, hone, Totals.weak_setWeak,
      Totals.setWeak_setWeak]
    exact Totals.setWeak_self (t.setStrong a 0) a
  rw [decStrong.spec_last h hone]
  show wp (onLastStrongRef (knot n) a) _ _ _
  unfold onLastStrongRef
  rw [wp_bind, wp_thisProcess, handle_putRefs]
  cases hhandle : (s.objects a).binder_handle with
  | none =>
    have htold : Drained t ((t.setStrong a 0).setWeak a (t.weak a + 1)) s
        (putRefs a (counts (s.objects a).refs.mFlags (some 0) (1 + t.weak a)) s) [] [] := by
      refine Drained.counted h hmid (fun b hb => Totals.grows_setStrong t a 0 b hb) fun b hb => ?_
      have hba : b ≠ a := by
        intro heq
        exact hb (by rw [heq, hhandle])
      rw [Totals.strong_setWeak, Totals.strong_setStrong_ne t 0 hba]
    show wp (refBase (knot (n + 1)) a).decWeak _ _ _
    refine wp_imp (decWeak_drained hmid (by simp)) fun _ s' hend' => ⟨[], Nat.zero_le 1, ?_⟩
    rw [← hend]
    exact htold.trans hend'
  | some handle =>
    show wp (decStrongHandle (knot n) handle) _ _ _
    unfold decStrongHandle
    rw [wp_bind, wp_write, wp_bind, flushIfNeeded.spec_busy (by simpa using hbusy), wp_pure]
    have htold : Drained t ((t.setStrong a 0).setWeak a (t.weak a + 1)) s
        (wrote (.BC_RELEASE handle)
          (putRefs a (counts (s.objects a).refs.mFlags (some 0) (1 + t.weak a)) s))
        [] [.BC_RELEASE handle] :=
      { Drained.refl h with
        has := hmid.congr rfl
        same := (fixed_wrote _).trans fixed_putRefs
        mOut := rfl
        queued := rfl
        releases := by simp
        books := by
          refine Books.release hhandle (by omega) (fun b hb => Totals.grows_setStrong t a 0 b hb)
            (by simp) (by simp) fun b hba => ?_
          rw [Totals.strong_setWeak, Totals.strong_setStrong_ne t 0 hba] }
    refine wp_imp (decWeak_drained htold.has (by simp)) fun _ s' hend' =>
      ⟨[.BC_RELEASE handle], le_rfl, ?_⟩
    rw [← hend]
    exact htold.trans hend'

/-- No reference of `items` is the last one of its object, or the thread need not flush. -/
def Calm (s : Process) (t : Totals) (items : List Nat) : Prop :=
  s.busy = true ∨ ∀ a ∈ items, items.count a < t.strong a

theorem Calm.rest {s' : Process} {items : List Nat} (h : Calm s t (a :: items))
    (hsame : s'.fixed = s.fixed) : Calm s' (t.giveStrong [a]) items := by
  rcases h with h | h
  · left
    rw [busy_of_same hsame]
    exact h
  · right
    intro b hb
    have hcount := h b (List.mem_cons_of_mem a hb)
    simp only [Totals.giveStrong, List.count_cons, List.count_nil] at hcount ⊢
    omega

/-- One strong reference goes. -/
theorem decStrong_calm {n : Nat} {items : List Nat} (h : Has t s) (hpos : 0 < t.strong a)
    (hcalm : Calm s t (a :: items)) :
    wp (refBase (knot (n + 1)) a).decStrong (fun _ s' =>
      ∃ cmds, cmds.length ≤ 1 ∧ Drained t (t.giveStrong [a]) s s' [] cmds) never s := by
  by_cases hone : t.strong a = 1
  · rcases hcalm with hbusy | hmore
    · exact decStrong_last_drained h hone hbusy
    · have hcount := hmore a List.mem_cons_self
      rw [List.count_cons_self] at hcount
      omega
  · exact wp_imp (decStrong_drained h (by omega)) fun _ s' hgone => ⟨[], Nat.zero_le 1, hgone⟩

theorem releaseWeak_drained {items : List Nat} {n i : Nat} (h : Has t s)
    (hitems : s.mPostWriteWeakDerefs.drop i = items) (hn : items.length ≤ n)
    (hcount : ∀ a, items.count a ≤ t.weak a) :
    wp (releaseWeak k n i)
      (fun _ s' => Drained t (t.giveWeak items) s s' (items.map .weak) []) never s := by
  induction items generalizing n i s t with
  | nil =>
    have hend : s.mPostWriteWeakDerefs.length ≤ i := List.drop_eq_nil_iff.mp hitems
    cases n with
    | zero =>
      unfold releaseWeak
      rw [wp_bind, wp_thisProcess, if_neg (by omega), wp_pure]
      exact Drained.refl h
    | succ n =>
      unfold releaseWeak
      rw [wp_bind, wp_thisProcess, List.getElem?_eq_none hend]
      exact Drained.refl h
  | cons a items ih =>
    obtain ⟨n, rfl⟩ : ∃ m, n = m + 1 := ⟨n - 1, by simp only [List.length_cons] at hn; omega⟩
    have hget : s.mPostWriteWeakDerefs[i]? = some a := by
      rw [← List.head?_drop, hitems, List.head?_cons]
    have hrest : s.mPostWriteWeakDerefs.drop (i + 1) = items := by
      rw [← List.tail_drop, hitems, List.tail_cons]
    have hpos : 0 < t.weak a := by
      have hone := hcount a
      rw [List.count_cons_self] at hone
      omega
    unfold releaseWeak
    rw [wp_bind, wp_thisProcess, hget]
    show wp (update _ >>= _) _ _ _
    rw [wp_bind, wp_update, wp_bind]
    have hnoted := Drained.noted h [.weak a]
    refine wp_imp (decWeak_drained hnoted.has hpos) fun _ s₁ hone => ?_
    have hstep := hnoted.trans hone
    refine wp_imp (ih hstep.has (by rw [hstep.weakDerefs, hrest])
      (by simp only [List.length_cons] at hn; omega) fun b => ?_) fun _ s₂ hall => ?_
    · have hb := hcount b
      simp only [Totals.giveWeak, List.count_cons, List.count_nil] at hb ⊢
      omega
    · rw [Totals.giveWeak_cons]
      exact hstep.trans hall

theorem releaseStrong_drained {items : List Nat} {m n i : Nat} (h : Has t s)
    (hitems : s.mPostWriteStrongDerefs.drop i = items) (hn : items.length ≤ n)
    (hcount : ∀ a, items.count a ≤ t.strong a) (hcalm : Calm s t items) :
    wp (releaseStrong (knot (m + 1)) n i) (fun _ s' =>
      ∃ cmds, Drained t (t.giveStrong items) s s' (items.map .strong) cmds) never s := by
  induction items generalizing n i s t with
  | nil =>
    have hend : s.mPostWriteStrongDerefs.length ≤ i := List.drop_eq_nil_iff.mp hitems
    cases n with
    | zero =>
      unfold releaseStrong
      rw [wp_bind, wp_thisProcess, if_neg (by omega), wp_pure]
      exact ⟨[], Drained.refl h⟩
    | succ n =>
      unfold releaseStrong
      rw [wp_bind, wp_thisProcess, List.getElem?_eq_none hend]
      exact ⟨[], Drained.refl h⟩
  | cons a items ih =>
    obtain ⟨n, rfl⟩ : ∃ m, n = m + 1 := ⟨n - 1, by simp only [List.length_cons] at hn; omega⟩
    have hget : s.mPostWriteStrongDerefs[i]? = some a := by
      rw [← List.head?_drop, hitems, List.head?_cons]
    have hrest : s.mPostWriteStrongDerefs.drop (i + 1) = items := by
      rw [← List.tail_drop, hitems, List.tail_cons]
    have hpos : 0 < t.strong a := by
      have hone := hcount a
      rw [List.count_cons_self] at hone
      omega
    unfold releaseStrong
    rw [wp_bind, wp_thisProcess, hget]
    show wp (update _ >>= _) _ _ _
    rw [wp_bind, wp_update, wp_bind]
    have hnoted := Drained.noted h [.strong a]
    refine wp_imp (decStrong_calm hnoted.has hpos hcalm) fun _ s₁ ⟨cmds, _, hone⟩ => ?_
    have hstep := hnoted.trans hone
    refine wp_imp (ih hstep.has (by rw [hstep.strongDerefs, hrest])
      (by simp only [List.length_cons] at hn; omega) (fun b => ?_) (hcalm.rest hstep.same))
      fun _ s₂ ⟨cmds', hall⟩ => ⟨cmds ++ cmds', ?_⟩
    · have hb := hcount b
      simp only [Totals.giveStrong, List.count_cons, List.count_nil] at hb ⊢
      omega
    · rw [Totals.giveStrong_cons]
      exact hstep.trans hall

end Process

end system_binder
