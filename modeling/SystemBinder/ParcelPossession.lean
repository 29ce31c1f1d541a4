-- A parcel over a buffer of the driver is appended to: it takes a copy once, and comes to the
-- message of a local parcel, but where its objects were rejected and it grows for an object.
import SystemBinder.ParcelAppends

open prog memory

namespace system_binder.Parcel

variable {W : Type} {x : Outside W} {c c' : Ctx (W × List Nat)} {o : Append}

/-! ## A buffer of the driver -/

/-- `Parcel_ipcSetDataReference`, and the position at the end of the data. -/
def receiveToEnd (x : Outside W) (buffer : Block UInt8) (offsets : Block Nat) :
    Prog (Ctx W) Fault Unit := do
  ipcSetDataReference x buffer buffer.cells.length offsets offsets.cells.length .freeBuffer
  setDataPosition buffer.cells.length

/-- The offsets that a parcel retains: all, or none where its check rejects one. -/
def accepted (buffer : Block UInt8) (offsets : Block Nat) : List Nat :=
  if offsetsPass buffer.cells offsets.cells 0 = true then offsets.cells else []

/-- Offsets that lie apart below `n` are no more than `n`. -/
theorem Apart.length_le {l : List Nat} {n : Nat} (h : Apart l) (hin : ∀ o ∈ l, o < n) :
    l.length ≤ n := by
  have hdistinct : l.Nodup := by
    refine List.Pairwise.imp (fun {a b} hle => ?_) h
    unfold FLAT_SIZE at hle
    omega
  have hsub : l ⊆ List.range n := fun o ho => List.mem_range.mpr (hin o ho)
  have hle := (List.subperm_of_subset hdistinct hsub).length_le
  rwa [List.length_range] at hle

/-- The parcel is over the buffer still, which is as it was delivered, and was not handed back. Or
it has memory of its own, and the buffer was handed back once. -/
def BorrowedOrOwn (buffer : Block UInt8) (offsets : Block Nat) (before : List Nat)
    (c : Ctx (W × List Nat)) : Prop :=
  c.parcel.mOwner = some .freeBuffer ∧ c.parcel.mData = some buffer ∧
      c.parcel.mObjects = some offsets ∧ c.world.2 = before ∨
    Local c.parcel ∧ c.world.2 = before ++ [buffer.address]

theorem outside_keeps_nothing (x : Outside W) : OutsideKeeps x fun _ _ => True where
  frame := ⟨fun _ => trivial, fun _ _ => trivial, fun _ _ => trivial⟩
  incStrong _ := fun _ => wp_of_all (fun _ _ => trivial) fun _ => trivial
  decStrong _ := fun _ => wp_of_all (fun _ _ => trivial) fun _ => trivial
  getStrongProxyForHandle _ := fun _ => wp_of_all (fun _ _ => trivial) fun _ => trivial
  close _ := fun _ => wp_of_all (fun _ _ => trivial) fun _ => trivial

/-- What is received holds the buffer and the offsets that were accepted. -/
theorem receiveToEnd.receives {buffer : Block UInt8} {offsets : Block Nat}
    (hin : ∀ o ∈ offsets.cells, o + FLAT_SIZE ≤ buffer.cells.length) :
    wp (receiveToEnd (counted x) buffer offsets) (fun _ c' => (Ample c'.heap → Holding c') ∧
      asMessage c'.parcel = ⟨buffer.cells, accepted buffer offsets, buffer.cells.length⟩ ∧
      BorrowedOrOwn buffer offsets c'.world.2 c') (fun _ => True) c := by
  unfold receiveToEnd
  rw [wp_bind]
  refine wp_imp (ipcSetDataReference.refers (outside_keeps_nothing _) fun _ _ =>
    wp_of_all (fun _ _ => trivial) fun _ => trivial) fun _ c₁ ⟨_, fds, hp⟩ => ?_
  unfold setDataPosition
  rw [wp_ite]
  refine ⟨fun _ => trivial, fun hfit => ?_⟩
  have hfit := Nat.le_of_not_lt hfit
  rw [wp_update]
  unfold accepted
  rw [List.take_length] at hp
  generalize hn : (if offsetsPass buffer.cells offsets.cells 0 = true then offsets.cells.length
    else 0) = n at hp
  have hcount : n ≤ offsets.cells.length := by
    rw [← hn]
    split
    · exact Nat.le_refl _
    · exact Nat.zero_le _
  have hsmall : n ≤ buffer.cells.length := by
    rw [← hn]
    split
    · rename_i hpass
      obtain ⟨-, hapart, -⟩ := apart_of_pass (Nat.le_trans hfit (by decide)) hin hpass
      refine hapart.length_le fun o ho => ?_
      have := hin o ho
      unfold FLAT_SIZE at this
      omega
    · exact Nat.zero_le _
  have hlist : offsets.cells.take n =
      if offsetsPass buffer.cells offsets.cells 0 = true then offsets.cells else [] := by
    rw [← hn]
    split
    · exact List.take_length
    · rfl
  refine ⟨fun ha => ⟨.inr ⟨?_, ?_, ?_, ?_⟩, ?_, ?_, ?_, ?_, ha⟩, ?_, .inl ⟨?_, ?_, ?_, rfl⟩⟩
  all_goals simp only [Ctx.parcel_mapParcel, hp]
  · rfl
  · rfl
  · rfl
  · refine ⟨rfl, Nat.le_refl _, Nat.le_refl _, hfit, rfl, hcount, rfl, fun i o hi ho => ?_⟩
    exact hin o (List.mem_of_getElem? ho)
  · rfl
  · exact hsmall
  · rfl
  · rfl
  · have hall : window buffer.cells 0 buffer.cells.length = buffer.cells := List.take_length
    rw [← hlist]
    exact congrArg (fun bytes => Message.mk bytes (offsets.cells.take n) buffer.cells.length) hall
  · rfl
  · rfl
  · rfl

/-! ## The law -/

/-- What each append does: the message gets one more value at its end, the first one that grows
hands the buffer back and no other, and nothing but a function outside goes wrong. -/
def AppendsTo (buffer : Block UInt8) (offsets : Block Nat) (before : List Nat) (o : Append)
    (c : Ctx (W × List Nat)) : Except Fault (Int × Ctx (W × List Nat)) → Prop
  | .ok (_, c') => asMessage c'.parcel = (asMessage c.parcel).append o ∧
      BorrowedOrOwn buffer offsets before c' ∧
      c'.parcel.mOwner = if Grows o c.parcel then none else c.parcel.mOwner
  | .error e => InCall e

theorem Appended.borrowedOrOwn {buffer : Block UInt8} {offsets : Block Nat} {before : List Nat}
    (a : Appended o c c') (h : BorrowedOrOwn buffer offsets before c) :
    BorrowedOrOwn buffer offsets before c' := by
  by_cases ho : c'.parcel.mOwner.isSome = true
  · rw [a.same ho]
    exact h
  · have hlocal : Local c'.parcel := by
      rcases a.holding.usable with l | b
      · exact l
      · exact absurd b.isSome ho
    refine .inr ⟨hlocal, ?_⟩
    rw [a.handedBack]
    rcases h with ⟨howner, hdata, -, hbefore⟩ | ⟨l, hbefore⟩
    · have hgrow : Grows o c.parcel := by
        by_contra hno
        have hkept := a.owner
        rw [if_neg hno, howner] at hkept
        exact ho (by rw [hkept]; rfl)
      have haddress : c.parcel.address = buffer.address := by
        unfold address
        rw [hdata]
        rfl
      rw [if_pos ⟨hgrow, by rw [howner]; rfl⟩, hbefore, haddress]
    · have hnone : ¬c.parcel.mOwner.isSome = true := by
        rw [l.owner]
        exact Bool.false_ne_true
      rw [if_neg fun hg => hnone hg.2, hbefore, List.append_nil]

/-- One append after another. -/
def runAppends (x : Outside W) : List Append → Prog (Ctx W) Fault Unit
  | [] => pure ()
  | o :: os => do
    let _ ← runAppend x o
    runAppends x os

/-- The values that are appended come behind the message in their order. -/
theorem runAppends.appends {ops : List Append} (h : Holding c)
    (hops : Allowed (runAppend (counted x)) (fun o c => CanList o c.parcel) ops c) :
    wp (runAppends (counted x) ops)
      (fun _ c' => asMessage c'.parcel = ops.foldl Message.append (asMessage c.parcel)) InCall c := by
  induction ops generalizing c with
  | nil => rfl
  | cons o os ih =>
    obtain ⟨hcan, hrest⟩ := hops
    unfold runAppends
    rw [wp_bind]
    refine wp_of_result (fun r c₁ hrun => ?_) fun e hrun => ?_
    · have a := wp.of_ok (runAppend.appends h hcan) hrun
      rw [List.foldl_cons, ← a.message]
      exact ih a.holding (hrest r c₁ hrun)
    · exact (wp_of_error hrun).mp (runAppend.appends h hcan)

/-- A local parcel may list an object wherever it grows. -/
theorem allowed_of_local {ops : List Append} (h : Holding c) (howner : c.parcel.mOwner = none) :
    Allowed (runAppend (counted x)) (fun o c => CanList o c.parcel) ops c := by
  have hcan : ∀ (o : Append) (c : Ctx (W × List Nat)), c.parcel.mOwner = none →
      CanList o c.parcel := by
    intro o c hnone
    cases o with
    | object val nullMetaData =>
      intro _ ho
      rw [hnone] at ho
      cases ho
    | _ => trivial
  refine always_of_inv (fun c => Holding c ∧ c.parcel.mOwner = none)
    (fun o c hi _ => hcan o c hi.2) (fun o c r c' hi _ hrun => ?_) ⟨h, howner⟩ allowed_all
  have a := wp.of_ok (runAppend.appends hi.1 (hcan o c hi.2)) hrun
  refine ⟨a.holding, ?_⟩
  rw [a.owner, hi.2, ite_self]

/-- A parcel takes a buffer of the driver, and values are appended at its end, where there is
memory. Unless the first that grows is an object to list and the offsets were rejected, it comes to
the message that a local copy of what was received comes to. The first append that grows hands the
buffer back, and it is as it was delivered until then. -/
theorem appends_take_a_copy_once (x : Outside W) (buffer : Block UInt8) (offsets : Block Nat)
    (c₀ c₁ : Ctx (W × List Nat)) (ops : List Append)
    (hstart : receiveToEnd (counted x) buffer offsets c₀ = .ok ((), c₁))
    (hin : ∀ o ∈ offsets.cells, o + FLAT_SIZE ≤ buffer.cells.length) (ha : Ample c₁.heap)
    (hops : Allowed (runAppend (counted x)) (fun o c => CanList o c.parcel) ops c₁) :
    asMessage c₁.parcel = ⟨buffer.cells, accepted buffer offsets, buffer.cells.length⟩ ∧
    Always (runAppend (counted x)) (AppendsTo buffer offsets c₁.world.2) ops c₁ ∧
    wp (runAppends (counted x) ops) (fun _ c₂ =>
      asMessage c₂.parcel = ops.foldl Message.append (asMessage c₁.parcel) ∧
      ∀ d : Ctx (W × List Nat), Holding d → d.parcel.mOwner = none →
        asMessage d.parcel = asMessage c₁.parcel →
        wp (runAppends (counted x) ops) (fun _ d₂ => asMessage c₂.parcel = asMessage d₂.parcel)
          InCall d) InCall c₁ := by
  obtain ⟨hholding, hmessage, hborrowed⟩ := wp.of_ok (receiveToEnd.receives hin) hstart
  have h := hholding ha
  refine ⟨hmessage, ?_, ?_⟩
  · refine always_of_inv (fun c => Holding c ∧ BorrowedOrOwn buffer offsets c₁.world.2 c)
      (fun o c hi hcan => ?_) (fun o c r c' hi hcan hrun => ?_) ⟨h, hborrowed⟩ hops
    · have hstep := runAppend.appends (x := x) hi.1 hcan
      cases hrun : runAppend (counted x) o c with
      | error e => exact (wp_of_error hrun).mp hstep
      | ok result =>
        have a := wp.of_ok hstep hrun
        exact ⟨a.message, a.borrowedOrOwn hi.2, a.owner⟩
    · have a := wp.of_ok (runAppend.appends hi.1 hcan) hrun
      exact ⟨a.holding, a.borrowedOrOwn hi.2⟩
  · refine wp_imp (runAppends.appends h hops) fun _ c₂ hc₂ => ⟨hc₂, fun d hd howner hsame => ?_⟩
    refine wp_imp (runAppends.appends hd (allowed_of_local hd howner)) fun _ d₂ hd₂ => ?_
    rw [hc₂, hd₂, hsame]

/-- Nothing was handed back yet, and there is memory. -/
def fresh : Ctx (Unit × List Nat) := ⟨empty, plenty, (), []⟩

/-- A word, and an object behind it that is listed. -/
theorem a_word_and_a_file_are_appended : ∃ c₁ : Ctx (Unit × List Nat),
    receiveToEnd (counted silent) wordAndHandle ⟨1, [4]⟩ fresh = .ok ((), c₁) ∧
    Always (runAppend (counted silent)) (AppendsTo wordAndHandle ⟨1, [4]⟩ [])
      [.int32 5, .object ownedFile true] c₁ := by
  obtain ⟨c₁, hrun, hheap, hworld⟩ : ∃ c₁ : Ctx (Unit × List Nat),
      receiveToEnd (counted silent) wordAndHandle ⟨1, [4]⟩ fresh = .ok ((), c₁) ∧
      c₁.heap = plenty ∧ c₁.world.2 = [] := ⟨_, rfl, rfl, rfl⟩
  have hops : wp (receiveToEnd (counted silent) wordAndHandle ⟨1, [4]⟩)
      (fun _ c => Allowed (runAppend (counted silent)) (fun o c => CanList o c.parcel)
        [.int32 5, .object ownedFile true] c) never fresh := by decide +kernel
  have ha : Ample c₁.heap := by
    rw [hheap]
    exact fun n h => by cases h
  have h := (appends_take_a_copy_once silent wordAndHandle ⟨1, [4]⟩ fresh c₁ _ hrun (by decide) ha
    (hops.of_ok hrun)).2.1
  rw [hworld] at h
  exact ⟨c₁, hrun, h⟩

/-- A weak handle. Its type is none of those that a parcel supports. -/
def weakHandle : Block UInt8 where
  address := 0
  cells := FlatBinderObject.toBytes { type := 0x77682a85, flags := 0, binder := 5, cookie := 0 }

/-- An array with an unsupported object is rejected. The first object that is appended then goes
to a table that is not there any more. -/
theorem a_rejected_array_has_no_table_left : ∃ c₁ : Ctx (Unit × List Nat),
    receiveToEnd (counted silent) weakHandle ⟨1, [0]⟩ fresh = .ok ((), c₁) ∧
    runAppend (counted silent) (.object ownedFile true) c₁ = .error .nullPointer := by
  obtain ⟨u, c₁, hrun, hstop⟩ : ∃ (u : Unit) (c₁ : Ctx (Unit × List Nat)),
      receiveToEnd (counted silent) weakHandle ⟨1, [0]⟩ fresh = .ok (u, c₁) ∧
      wp (runAppend (counted silent) (.object ownedFile true)) (fun _ _ => False)
        (fun e => e = .nullPointer) c₁ := wp_never_iff.mp (by decide +kernel)
  refine ⟨c₁, hrun, ?_⟩
  cases hput : runAppend (counted silent) (.object ownedFile true) c₁ with
  | error e => rw [(wp_of_error hput).mp hstop]
  | ok result => exact ((wp_of_ok hput).mp hstop).elim

end system_binder.Parcel
