-- What the Parcel functions leave of the rest of the process: whatever part of it the functions
-- that they call leave alone.
import SystemBinder.ParcelLookup
import SystemBinder.ParcelToken

open prog memory

namespace system_binder

variable {W K : Type}

/-- The program leaves the part `g` of the process. -/
abbrev LeavesPart {α : Type} (g : W → K) (m : Prog W Fault α) : Prop :=
  Keeps (fun w w' => g w' = g w) (fun _ _ => True) m

/-- The functions that a Parcel calls on its binders leave the part `g`. -/
structure CallsLeave (g : W → K) (x : Calls W) : Prop where
  incStrong : ∀ a, LeavesPart g (x.incStrong a)
  incStrongRequireStrong : ∀ a, LeavesPart g (x.incStrongRequireStrong a)
  getStrongProxyForHandle : ∀ h, LeavesPart g (x.getStrongProxyForHandle h)
  backgroundSchedulingDisabled : LeavesPart g x.backgroundSchedulingDisabled
  localBinder : ∀ a, LeavesPart g (x.localBinder a)
  remoteBinder : ∀ a, LeavesPart g (x.remoteBinder a)
  mStability : ∀ a, LeavesPart g (x.mStability a)
  putStability : ∀ a s, LeavesPart g (x.putStability a s)
  setParceled : ∀ a, LeavesPart g (x.setParceled a)
  getMinSchedulerPolicy : ∀ a, LeavesPart g (x.getMinSchedulerPolicy a)
  getMinSchedulerPriority : ∀ a, LeavesPart g (x.getMinSchedulerPriority a)
  isRequestingSid : ∀ a, LeavesPart g (x.isRequestingSid a)
  isInheritRt : ∀ a, LeavesPart g (x.isInheritRt a)
  getWeakRefs : ∀ a, LeavesPart g (x.getWeakRefs a)
  binderHandle : ∀ a, LeavesPart g (x.binderHandle a)

theorem part_frame {g : W → K} : Frame (fun w w' => g w' = g w) fun _ (_ : Fault) => True where
  refl _ := rfl
  trans a b := b.trans a
  stops _ _ := trivial

namespace Parcel

variable {g : W → K} {x : Calls W} {α : Type}

/-! ## Stability and flat objects -/

section Binders

variable (h : CallsLeave g x)

include h

theorem holder_leaves (binder : BitVec 64) : LeavesPart g (Stability.holder x binder) :=
  part_frame.bind (h.localBinder _) fun _ => .ite (part_frame.pure _) (h.remoteBinder _)

theorem getRepr_leaves (binder : BitVec 64) : LeavesPart g (Stability.getRepr x binder) :=
  .ite (part_frame.pure _) (part_frame.bind (holder_leaves h _) fun _ => h.mStability _)

theorem setRepr_leaves (binder : BitVec 64) (setting : BitVec 32) (allowDowngrade : Bool) :
    LeavesPart g (Stability.setRepr x binder setting allowDowngrade) := by
  refine part_frame.bind (getRepr_leaves h _) fun _ => ?_
  refine .ite (part_frame.pure _) (.ite (part_frame.pure _) ?_)
  refine .ite (part_frame.pure _) (.ite (part_frame.pure _) ?_)
  exact part_frame.bind (holder_leaves h _) fun _ =>
    part_frame.bind (h.putStability _ _) fun _ => part_frame.pure _

theorem acquire_object_leaves (obj : FlatBinderObject) :
    LeavesPart g (acquire_object x.toOutside obj) := by
  refine .ite (.ite (h.incStrong _) (part_frame.pure _)) (.ite ?_ (part_frame.pure _))
  exact part_frame.bind (h.getStrongProxyForHandle _) fun _ =>
    .ite (h.incStrong _) (part_frame.pure _)

theorem flatProxy_leaves (binder : BitVec 64) (schedBits : BitVec 32) (obj : FlatBinderObject) :
    LeavesPart g (flatProxy x binder schedBits obj) := by
  refine part_frame.bind (h.remoteBinder _) fun _ => .ite ?_ ?_
  · exact part_frame.bind (h.binderHandle _) fun _ => part_frame.pure _
  · exact part_frame.bind (part_frame.pure _) fun _ => part_frame.pure _

theorem flatLocal_leaves (loc : BitVec 64) (schedBits : BitVec 32) (obj : FlatBinderObject) :
    LeavesPart g (flatLocal x loc schedBits obj) := by
  refine part_frame.bind (h.getMinSchedulerPolicy _) fun _ => ?_
  refine part_frame.bind (h.getMinSchedulerPriority _) fun _ => ?_
  refine part_frame.bind (h.isRequestingSid _) fun _ => ?_
  refine part_frame.bind (h.isInheritRt _) fun _ => ?_
  exact part_frame.bind (h.getWeakRefs _) fun _ => part_frame.pure _

theorem flatOf_leaves (binder : BitVec 64) (obj : FlatBinderObject) :
    LeavesPart g (flatOf x binder obj) := by
  refine .ite (part_frame.bind (h.localBinder _) fun loc => ?_)
    (part_frame.bind (part_frame.pure _) fun loc => ?_)
  all_goals
    refine .ite (part_frame.bind (h.setParceled _) fun _ => ?_) ?_
  all_goals
    refine part_frame.bind h.backgroundSchedulingDisabled fun _ => ?_
    exact .ite (.ite (flatProxy_leaves h _ _ _) (flatLocal_leaves h _ _ _)) (part_frame.pure _)

end Binders

/-! ## Reads -/

/-- What a read leaves. -/
def SamePart (g : W → K) (c c' : Ctx W) : Prop := g c'.world = g c.world

instance : ReadFrame (SamePart g) where
  frame :=
    { refl := fun _ => rfl
      trans := fun a b => Eq.trans b a
      stops := fun _ _ => trivial }
  parcel _ _ _ := rfl
  heap _ _ _ := rfl

theorem SamePart.outside {m : Prog W Fault α} (h : LeavesPart g m) :
    Leaves (SamePart g) (system_binder.outside m) := by
  intro c
  rw [wp_outside]
  exact wp_mono (h c.world) (fun _ _ hw => hw) fun _ _ => trivial

theorem reads_leave (h : CallsLeave g x) : Leaves.OfCalls (SamePart g) x where
  incStrongRequireStrong a := SamePart.outside (h.incStrongRequireStrong a)
  getStrongProxyForHandle a := SamePart.outside (h.getStrongProxyForHandle a)
  setRepr a s := SamePart.outside (setRepr_leaves h a s false)

/-! ## Writes -/

/-- The program leaves the part `g`, and a local parcel local. -/
abbrev WritesLeaving (g : W → K) (m : Prog (Ctx W) Fault α) : Prop :=
  Keeps (fun c c' => Local c.parcel → Local c'.parcel ∧ g c'.world = g c.world) (fun _ _ => True) m

theorem writing_frame : Frame (fun c c' : Ctx W => Local c.parcel →
    Local c'.parcel ∧ g c'.world = g c.world) fun _ (_ : Fault) => True where
  refl _ l := ⟨l, rfl⟩
  trans a b l := by
    obtain ⟨l', hw⟩ := a l
    obtain ⟨l'', hw'⟩ := b l'
    exact ⟨l'', hw'.trans hw⟩
  stops _ _ := trivial

theorem WritesLeaving.of {m : Prog (Ctx W) Fault α} (h : ∀ c, Local c.parcel →
    wp m (fun _ c' => Local c'.parcel ∧ g c'.world = g c.world) (fun _ => True) c) :
    WritesLeaving g m := by
  intro c
  by_cases hl : Local c.parcel
  · exact wp_imp (h c hl) fun _ _ h' _ => h'
  · exact wp_of_all (fun _ _ l => absurd l hl) fun _ => trivial

theorem WritesLeaving.outside {m : Prog W Fault α} (h : LeavesPart g m) :
    WritesLeaving g (system_binder.outside m) := by
  refine .of fun c l => ?_
  rw [wp_outside]
  exact wp_mono (h c.world) (fun _ _ hw => ⟨l, hw⟩) fun _ _ => trivial

theorem writeAligned_leaves {x : Outside W} (bs : List UInt8) (h0 : 0 < bs.length)
    (hlen : bs.length ≤ 64) : WritesLeaving g (writeAligned x bs) :=
  .of fun _ l => writeAligned.spec l h0 (hlen.trans (by decide))
    (fun _ a _ => ⟨a.isLocal, by rw [a.world]⟩)
    (fun _ _ _ k _ => ⟨k.isLocal, by rw [k.world]⟩)

theorem writeInt32_leaves {x : Outside W} (val : BitVec 32) : WritesLeaving g (writeInt32 x val) := by
  apply writeAligned_leaves <;> simp

/-- A record that says it has more bytes than it has is read past its end. -/
theorem writeString16_leaves {x : Outside W} (name : BinderString) :
    WritesLeaving g (writeString16 x (some name)) := by
  by_cases hsize : name.mSize ≤ STRING_INIT_CAPACITY
  · have hlen : (name.mData.take name.mSize).length = name.mSize := by
      rw [List.length_take, name.room]
      omega
    have hname : name.Carries (name.mData.take name.mSize) :=
      ⟨hlen.symm, by rwa [hlen], by rw [hlen]⟩
    exact .of fun _ l => writeString16.spec hname l
      (fun _ a _ _ => ⟨a.isLocal, by rw [a.world]⟩) fun _ _ l' hw _ _ => ⟨l', by rw [hw]⟩
  · refine writing_frame.bind (writeInt32_leaves _) fun _ => .ite ?_ (writing_frame.pure _)
    refine WritesLeaving.of fun c l => ?_
    rw [wp_bind]
    refine writeInplace.spec l (fun c₁ _ a => ?_) fun _ k _ => ?_
    · cases c₁.parcel.place c.parcel.mDataPos with
      | none => exact ⟨a.isLocal, by rw [a.world]⟩
      | some data =>
        dsimp only
        rw [wp_bind]
        unfold BinderString.copyTo
        rw [if_neg hsize, wp_fault]
        trivial
    · exact ⟨k.isLocal, by rw [k.world]⟩

theorem writeInterfaceToken_leaves (interface : BinderString) :
    WritesLeaving g (writeInterfaceToken x interface) := by
  have hthread : WritesLeaving g (thisThread x) := fun _ l => ⟨l, rfl⟩
  refine writing_frame.bind hthread fun _ => writing_frame.bind (writeInt32_leaves _) fun _ => ?_
  refine writing_frame.bind ?_ fun _ => writing_frame.bind hthread fun _ => ?_
  · exact WritesLeaving.of fun _ l => wp_imp (updateWorkSourceRequestHeaderPosition.advanced l)
      fun _ _ ⟨a, _⟩ => ⟨a.isLocal, by rw [a.world]⟩
  · refine writing_frame.bind (writeInt32_leaves _) fun _ => ?_
    exact writing_frame.bind (writeInt32_leaves _) fun _ => writeString16_leaves _

variable (h : CallsLeave g x)

include h

theorem writeObject_leaves (val : FlatBinderObject) (nullMetaData : Bool) :
    WritesLeaving g (writeObject x.toOutside val nullMetaData) := by
  refine .of fun c l => writeObject.spec l (fun _ _ _ r => ?_) (fun _ => ?_)
    fun _ _ a hw => ⟨a.isLocal, by rw [hw]⟩
  · exact ⟨r.isLocal, by rw [r.world]⟩
  · refine wp_mono (acquire_object_leaves h val c.world) (fun _ w hkept c' a hw => ?_)
      fun _ _ => trivial
    exact ⟨a.isLocal, by rw [hw]; exact hkept⟩

theorem writeStrongBinder_leaves (val : BitVec 64) : WritesLeaving g (writeStrongBinder x val) := by
  have hlocal : WritesLeaving g (indeterminateObject : Prog (Ctx W) Fault FlatBinderObject) :=
    fun _ l => ⟨l, rfl⟩
  refine writing_frame.bind hlocal fun obj => ?_
  refine writing_frame.bind (WritesLeaving.outside (flatOf_leaves h _ _)) fun _ => ?_
  refine writing_frame.bind (writeObject_leaves h _ _) fun _ => .ite (writing_frame.pure _) ?_
  refine writing_frame.bind (WritesLeaving.outside ?_) fun _ =>
    writing_frame.bind (WritesLeaving.outside (getRepr_leaves h _)) fun _ => writeInt32_leaves _
  exact part_frame.bind (setRepr_leaves h _ _ _) fun _ => part_frame.pure _

end Parcel

end system_binder
