-- The interface token: what a request starts with, and that the receiver takes exactly the token
-- of its own interface, whatever its uninitialised variables held.
import SystemBinder.ParcelPeer

open prog memory

namespace system_binder.Parcel

variable {W : Type} {c : Ctx W} {E : Fault → Prop} {d : List UInt8} {interface : BinderString}

/-! ## What the receiver takes -/

/-- The bytes of the encoding of a text. -/
def stringSize (d : List UInt8) : Nat := 4 + (d.length + 1 + 3) / 4 * 4

/-- A token stands at the position: two words, the word `kHeader`, and the encoding of the text,
inside the data. -/
structure TokenStands (p : Parcel) (d : List UInt8) : Prop where
  header : window p.cells (p.mDataPos + 8) 4 = wordBytes 4 kHeader
  text : StringStands (ahead 12 p) d

/-- A whole and terminated string of that length and these bytes is the encoding of the text. -/
theorem StringStands.of_inside {p : Parcel} (r : Readable p) (hin : StringInside p)
    (hend : Terminated p) (hlen : (stringLength p).toNat = d.length)
    (hbytes : window p.cells (p.mDataPos + 4) d.length = d) (hfits : d.length ≤ 64) :
    StringStands p d where
  length := by
    have hword : BitVec.ofNat 32 d.length = stringLength p := by
      rw [← hlen]
      exact BitVec.ofNat_toNat _ _ |>.trans (BitVec.setWidth_eq _)
    have hfour : (window p.cells p.mDataPos 4).length = 4 := by
      have h4 := hin.1
      have := r.data
      exact length_window (by omega)
    rw [hword]
    exact (wordBytes_bytesWord (by rfl) hfour).symm
  bytes := by
    have hnul : window p.cells (p.mDataPos + 4 + d.length) 1 = [0] := by
      rw [← hlen]
      exact hend
    rw [window_append, hbytes, hnul]
  inside := by
    have hpad := hin.2.2.2
    rw [hlen] at hpad
    rwa [padSize_eq (by unfold INT32_MAX; omega)] at hpad
  fits := by omega

/-- The position behind a whole string. -/
theorem StringInside.end_pos {p : Parcel} (r : Readable p) (h : StringInside p) :
    (Parcel.skip (padSize ((stringLength p).toNat + 1)) (Parcel.skip 4 p)).mDataPos =
      p.mDataPos + 4 + padSize ((stringLength p).toNat + 1) := by
  have r4 := r.skip (n := 4) (by decide) h.1
  have hfour : (Parcel.skip 4 p).mDataPos = p.mDataPos + 4 := r.sz_pos (by decide)
  rw [← hfour]
  exact r4.sz_pos h.padded

/-- The descriptor is compared with the string at the position, and nothing else is taken. -/
theorem sameInterface.accepts (hd : interface.Carries d) (hne : d ≠ []) (r : Readable c.parcel) :
    wp (sameInterface interface interface.mSize) (fun same c' =>
      (same = true ↔ StringStands c.parcel d) ∧
        (same = true → c'.parcel.mDataPos = c.parcel.mDataPos + stringSize d))
      (fun _ => ¬StringStands c.parcel d) c := by
  have hlen0 : d.length ≠ 0 := fun h => hne (List.length_eq_zero_iff.mp h)
  have hfits : d.length ≤ 64 := hd.fits
  unfold sameInterface
  rw [hd.size, wp_bind, readString8Inplace.spec r]
  split
  · rename_i hin
    split
    · rename_i hend
      simp only [wp_ite, wp_pure, wp_bind]
      refine ⟨fun hother => ?_, fun heq => ?_⟩
      · exact ⟨⟨(fun h => by cases h), fun h => absurd h.toNat_length.symm hother⟩,
          fun h => by cases h⟩
      · have hlen : (stringLength c.parcel).toNat = d.length := by
          have hsame := not_not.mp heq
          exact hsame.symm
        have hload : c.parcel.mDataPos + 4 + d.length ≤ c.parcel.cells.length := by
          have htext := hin.text_inside
          have := r.data
          omega
        have hpos := hin.end_pos r
        have hpad : padSize (d.length + 1) = (d.length + 1 + 3) / 4 * 4 :=
          padSize_eq (by unfold INT32_MAX; omega)
        rw [hlen] at hpos
        have hwindow : StringStands c.parcel d →
            window c.parcel.cells (c.parcel.mDataPos + 4) d.length = d := fun h => by
          have htake := congrArg (List.take d.length) h.bytes
          rwa [List.take_left, window, List.take_take, Nat.min_eq_left (Nat.le_succ _)] at htake
        rw [wp_loadData]
        · unfold BinderString.copyTo
          rw [if_pos hd.fits, hd.bytes, wp_pure, hlen]
          refine ⟨⟨fun hsame => ?_, fun h => ?_⟩, fun _ => ?_⟩
          · exact .of_inside r hin hend hlen (by simpa using hsame) hfits
          · simpa using hwindow h
          · unfold stringSize
            rw [← Nat.add_assoc, ← hpad]
            exact hpos
        · exact hload
    · rename_i hend
      exact fun h => hend h.terminated
  · rename_i hin
    simp only [wp_ite, wp_pure]
    refine ⟨fun _ => ?_, fun heq => absurd (not_not.mp heq) hlen0⟩
    exact ⟨⟨(fun h => by cases h), fun h => absurd h.stringInside hin⟩, fun h => by cases h⟩

theorem StringStands.congr {p p' : Parcel} (hcells : p'.cells = p.cells)
    (hsize : p'.mDataSize = p.mDataSize) (hpos : p'.mDataPos = p.mDataPos) :
    StringStands p d ↔ StringStands p' d := by
  constructor
  · intro h
    exact ⟨by rw [hcells, hpos]; exact h.length, by rw [hcells, hpos]; exact h.bytes,
      by rw [hpos, hsize]; exact h.inside, h.fits⟩
  · intro h
    exact ⟨by rw [← hcells, ← hpos]; exact h.length, by rw [← hcells, ← hpos]; exact h.bytes,
      by rw [← hpos, ← hsize]; exact h.inside, h.fits⟩

theorem header_iff {p : Parcel} (r : Readable p) (h12 : p.mDataPos + 12 ≤ p.mDataSize) :
    bytesWord 32 (window p.cells (p.mDataPos + 8) 4) = kHeader ↔
      window p.cells (p.mDataPos + 8) 4 = wordBytes 4 kHeader := by
  have hfour : (window p.cells (p.mDataPos + 8) 4).length = 4 := by
    have := r.data
    exact length_window (by omega)
  constructor
  · intro h
    rw [← h, wordBytes_bytesWord (by rfl) hfour]
  · intro h
    rw [h, bytesWord_wordBytes (by rfl)]

/-- A token of the interface is taken, and nothing else: where words are missing, there is no
string behind them that could pass, whatever the variables held. -/
theorem checkInterface.accepts {x : Calls W} {binder : BitVec 64} {w : W}
    (hx : x.getInterfaceDescriptor binder c.world = .ok (interface, w))
    (hd : interface.Carries d) (hne : d ≠ []) (r : Readable c.parcel) :
    wp (checkInterface x binder) (fun accepted c' =>
      (accepted = true ↔ TokenStands c.parcel d) ∧
        (accepted = true → c'.parcel.mDataPos = c.parcel.mDataPos + 12 + stringSize d))
      (fun _ => ¬TokenStands c.parcel d) c := by
  -- the states between the steps
  obtain ⟨v₁, c₁, m₁, there₁, short₁, run₁⟩ :=
    readWord.spec (E := fun _ => ¬TokenStands c.parcel d) (c := c.setWorld w) r
  obtain ⟨w₂, run₂⟩ := takePolicy.spec (x := x) (E := fun _ => ¬TokenStands c.parcel d) v₁ c₁
  obtain ⟨c₃, m₃, p₃, run₃⟩ := updateWorkSourceRequestHeaderPosition.spec
    (E := fun _ => ¬TokenStands c.parcel d) (c := c₁.setWorld w₂) m₁.pos
  have m₃ : Moved c.parcel c₃.parcel := m₁.trans m₃
  obtain ⟨v₄, c₄, m₄, there₄, short₄, run₄⟩ :=
    readWord.spec (E := fun _ => ¬TokenStands c.parcel d) (c := c₃) (m₃.readable r)
  have m₄ : Moved c.parcel c₄.parcel := m₃.trans m₄
  obtain ⟨v₅, c₅, m₅, there₅, short₅, run₅⟩ := readWord.spec
    (E := fun _ => ¬TokenStands c.parcel d)
    (c := c₄.setWorld (x.putThread { x.thread c₄.world with mWorkSource := v₄ } c₄.world))
    (m₄.readable r)
  have m₅ : Moved c.parcel c₅.parcel := m₄.trans m₅
  simp only [Ctx.parcel_setWorld] at there₁ short₁ there₅ short₅ p₃
  rw [m₃.size] at there₄ short₄
  rw [m₄.size] at there₅ short₅
  unfold checkInterface enforceInterface
  rw [wp_bind, wp_outside, wp_of_ok hx, wp_bind, run₁, wp_bind, run₂, wp_bind, run₃, wp_bind, run₄,
    wp_bind, wp_updateThread, wp_bind, run₅]
  have hsame := sameInterface.accepts (c := c₅) hd hne (m₅.readable r)
  by_cases h12 : c.parcel.mDataPos + 12 ≤ c.parcel.mDataSize
  · obtain ⟨-, p₁⟩ := there₁ (by omega)
    obtain ⟨-, p₄⟩ := there₄ (by omega)
    obtain ⟨hv, p₅⟩ := there₅ (by omega)
    have hword : v₅ = bytesWord 32 (window c.parcel.cells (c.parcel.mDataPos + 8) 4) := by
      rw [hv]
      unfold wordHere
      rw [m₄.cells, p₄, p₃, p₁]
    have hpos : c₅.parcel.mDataPos = c.parcel.mDataPos + 12 := by omega
    have hstands : TokenStands c.parcel d ↔ v₅ = kHeader ∧ StringStands c₅.parcel d := by
      have htext : StringStands (ahead 12 c.parcel) d ↔ StringStands c₅.parcel d :=
        StringStands.congr m₅.cells m₅.size hpos
      rw [hword, header_iff r h12, ← htext]
      exact ⟨fun h => ⟨h.header, h.text⟩, fun h => ⟨h.1, h.2⟩⟩
    rw [hstands]
    split
    · rename_i hother
      rw [wp_pure]
      exact ⟨⟨(fun h => by cases h), fun h => absurd h.1 hother⟩, fun h => by cases h⟩
    · rename_i heq
      have hheader : v₅ = kHeader := not_not.mp heq
      refine wp_mono hsame (fun same c' hs => ?_) fun _ hno h => hno h.2
      exact ⟨hs.1.trans ⟨fun h => ⟨hheader, h⟩, fun h => h.2⟩, fun h => by rw [hs.2 h, hpos]⟩
  · -- the first word that is missing leaves the position, and so do the others
    have hno : ¬TokenStands c.parcel d := fun h => by
      have hin := h.text.inside
      have hpos : (ahead 12 c.parcel).mDataPos = c.parcel.mDataPos + 12 := rfl
      have hsize : (ahead 12 c.parcel).mDataSize = c.parcel.mDataSize := rfl
      omega
    have hshort : ¬StringStands c₅.parcel d := fun h => by
      have hin := h.inside
      rw [m₅.size] at hin
      omega
    split
    · rw [wp_pure]
      exact ⟨⟨(fun h => by cases h), fun h => absurd h hno⟩, fun h => by cases h⟩
    · refine wp_mono hsame (fun same c' hs => ?_) fun _ _ => hno
      have hfalse : ¬same = true := fun h => hshort (hs.1.mp h)
      exact ⟨⟨fun h => absurd h hfalse, fun h => absurd h hno⟩, fun h => absurd h hfalse⟩

/-! ## What the sender writes -/

/-- The bytes of a token. -/
def tokenSize (d : List UInt8) : Nat := 12 + stringSize d

/-- Remembering where the header stands writes nothing. -/
theorem updateWorkSourceRequestHeaderPosition.advanced (l : Local c.parcel) :
    wp updateWorkSourceRequestHeaderPosition (fun _ c' => Advanced c c' 0 ∧
      c'.parcel.cells = c.parcel.cells) E c := by
  unfold updateWorkSourceRequestHeaderPosition
  rw [wp_bind, wp_thisParcel]
  split
  · rw [wp_update]
    refine ⟨⟨⟨l.owner, l.pos, l.size, l.capacity, l.data, l.objects, l.table, l.offsets⟩, rfl, ?_,
      le_rfl, fun _ _ _ _ => rfl, rfl, rfl, rfl, rfl, rfl, rfl⟩, rfl⟩
    exact (Nat.max_eq_left l.pos).symm
  · rw [wp_pure]
    exact ⟨Advanced.refl l, rfl⟩

/-- A word at the end of the data. -/
theorem writeInt32.at_end {x : Outside W} {val : BitVec 32} (l : Local c.parcel)
    (ha : Ample c.heap) (hend : c.parcel.mDataPos = c.parcel.mDataSize)
    (hsmall : c.parcel.mDataPos + 4 ≤ 2 ^ 30) :
    wp (writeInt32 x val) (fun status c' => status = STATUS_OK ∧ Advanced c c' 4 ∧
      window c'.parcel.cells c.parcel.mDataPos 4 = wordBytes 4 val) E c := by
  unfold writeInt32
  refine wp_imp (wrote_word (v := .int32 val) l ha hend (length_wordBytes 4 val) (by simp)
    (by rwa [length_wordBytes]) fun _ hw => by rwa [length_wordBytes] at hw) ?_
  rintro r c' ⟨hok, hadvanced, hencodes⟩
  exact ⟨hok, hadvanced, hencodes⟩

theorem Advanced.ample {c' : Ctx W} {n : Nat} (a : Advanced c c' n) (ha : Ample c.heap) :
    Ample c'.heap := by
  unfold Ample
  rw [a.fresh]
  exact ha

theorem Advanced.ends {c' : Ctx W} {n : Nat} (a : Advanced c c' n)
    (hend : c.parcel.mDataPos = c.parcel.mDataSize) :
    c'.parcel.mDataPos = c'.parcel.mDataSize := by
  have hpos := a.pos
  have hsize := a.size
  omega

/-- A text at the end of the data. -/
theorem writeString16.at_end {x : Outside W} {str : BinderString} (hd : str.Carries d)
    (l : Local c.parcel) (ha : Ample c.heap) (hend : c.parcel.mDataPos = c.parcel.mDataSize)
    (hsmall : c.parcel.mDataPos + 72 ≤ 2 ^ 30) :
    wp (writeString16 x (some str)) (fun status c' => status = STATUS_OK ∧
      Advanced c c' (stringSize d) ∧
      window c'.parcel.cells c.parcel.mDataPos 4 = wordBytes 4 (BitVec.ofNat 32 d.length) ∧
      window c'.parcel.cells (c.parcel.mDataPos + 4) (d.length + 1) = d ++ [0]) E c := by
  have hfits : d.length ≤ 64 := hd.fits
  have hpad : padSize (d.length + 1) = (d.length + 1 + 3) / 4 * 4 :=
    padSize_of_le (by unfold INT32_MAX; omega)
  refine writeString16.spec hd l (fun c' a hlen htext => ?_) fun r c' _ _ _ hno => ?_
  · rw [hpad] at a
    exact ⟨rfl, a, hlen, htext⟩
  · exfalso
    rcases hno with h | ⟨c', a, h | h | h⟩
    · exact can_grow ha (by omega) h
    · unfold INT32_MAX at h
      omega
    · unfold INT32_MAX at h
      omega
    · have hs := a.size
      exact can_grow (a.ample ha) (by omega) h

/-- A fresh parcel has exactly the token. -/
theorem writeInterfaceToken.spec {x : Calls W} (hempty : c.parcel = empty) (ha : Ample c.heap)
    (hd : interface.Carries d) (hfits : d.length ≤ 64) :
    wp (writeInterfaceToken x interface) (fun status c' => status = STATUS_OK ∧
      c'.parcel.mDataPos = tokenSize d ∧ c'.parcel.mDataSize = tokenSize d ∧
      TokenStands { c'.parcel with mDataPos := 0 } d) E c := by
  have l : Local c.parcel := by
    rw [hempty]
    exact empty_local
  have hpos : c.parcel.mDataPos = 0 := by rw [hempty]; rfl
  have hsize : c.parcel.mDataSize = 0 := by rw [hempty]; rfl
  unfold writeInterfaceToken
  rw [wp_bind, wp_thisThread, wp_bind]
  refine wp_imp (writeInt32.at_end l ha (by omega) (by omega)) fun _ c₁ ⟨_, a₁, _⟩ => ?_
  rw [wp_bind]
  refine wp_imp (updateWorkSourceRequestHeaderPosition.advanced a₁.isLocal) fun _ c₂ ⟨b₂, _⟩ => ?_
  have a₂ := a₁.trans b₂
  rw [wp_bind, wp_thisThread, wp_bind]
  refine wp_imp (writeInt32.at_end a₂.isLocal (a₂.ample ha) (a₂.ends (by omega)) ?_)
    fun _ c₃ ⟨_, b₃, _⟩ => ?_
  · rw [a₂.pos]
    omega
  have a₃ := a₂.trans b₃
  rw [wp_bind]
  refine wp_imp (writeInt32.at_end a₃.isLocal (a₃.ample ha) (a₃.ends (by omega)) ?_)
    fun _ c₄ ⟨_, b₄, hheader⟩ => ?_
  · rw [a₃.pos]
    omega
  have a₄ := a₃.trans b₄
  have hp₃ := a₃.pos
  have hp₄ := a₄.pos
  have hs₄ := a₄.size
  refine wp_imp (writeString16.at_end hd a₄.isLocal (a₄.ample ha) (a₄.ends (by omega))
    (by omega)) ?_
  rintro status c₅ ⟨hok, b₅, hlen, htext⟩
  have a₅ := a₄.trans b₅
  have hp₅ := a₅.pos
  have hs₅ := a₅.size
  have hcap := a₄.isLocal.size
  have hpos₄ := a₄.isLocal.pos
  refine ⟨hok, ?_, ?_, ?_, ?_⟩
  · unfold tokenSize
    omega
  · unfold tokenSize
    omega
  · -- the string was written behind the header
    have hkept := b₅.others (0 + 8) 4 (by omega) (by omega)
    have hp : c₃.parcel.mDataPos = 0 + 8 := by omega
    rw [hp] at hheader
    exact hkept.trans hheader
  · have hp : c₄.parcel.mDataPos = 0 + 12 := by omega
    rw [hp] at hlen htext
    refine ⟨hlen, htext, ?_, by omega⟩
    show 0 + 12 + 4 + _ ≤ c₅.parcel.mDataSize
    unfold stringSize at hp₅ hs₅
    omega

/-! ## From the sender to the receiver -/

theorem StringStands.unique {p : Parcel} {e : List UInt8} (hd : StringStands p d)
    (he : StringStands p e) : d = e := by
  have hlen : d.length = e.length := hd.toNat_length.symm.trans he.toNat_length
  have hbytes : d ++ [0] = e ++ [0] := by
    rw [← hd.bytes, ← he.bytes, hlen]
  exact List.append_cancel_right hbytes

theorem TokenStands.unique {p : Parcel} {e : List UInt8} (hd : TokenStands p d)
    (he : TokenStands p e) : d = e := hd.text.unique he.text

/-- The bytes of a token are one wherever they stand inside the data. -/
theorem TokenStands.of_bytes {p p' : Parcel} (h : TokenStands p d)
    (hbytes : window p'.cells p'.mDataPos (tokenSize d) = window p.cells p.mDataPos (tokenSize d))
    (hin : p'.mDataPos + tokenSize d ≤ p'.mDataSize) : TokenStands p' d := by
  have hpart {q m : Nat} (hqm : q + m ≤ tokenSize d) :
      window p'.cells (p'.mDataPos + q) m = window p.cells (p.mDataPos + q) m := by
    rw [← window_window hqm, ← window_window hqm, hbytes]
  unfold tokenSize stringSize at hpart hin
  refine ⟨?_, ?_, ?_, ?_, h.text.fits⟩
  · rw [hpart (by omega)]
    exact h.header
  · have hlen := h.text.length
    exact (hpart (q := 12) (m := 4) (by omega)).trans hlen
  · have htext := h.text.bytes
    have hmoved := hpart (q := 16) (m := d.length + 1) (by omega)
    exact hmoved.trans htext
  · show p'.mDataPos + 12 + 4 + _ ≤ p'.mDataSize
    omega

/-- The receiver takes what starts with two words, the word `kHeader` and the encoding of its own
interface, and nothing else; then it stands right behind them. So of the requests that other
parcels start with a token, it takes those of its own interface. -/
theorem the_token_of_the_interface_is_taken (x : Calls W) (c : Ctx W) (binder : BitVec 64) (w : W)
    (interface : BinderString) (d : List UInt8) (r : Readable c.parcel)
    (hx : x.getInterfaceDescriptor binder c.world = .ok (interface, w))
    (hd : interface.Carries d) (hne : d ≠ []) :
    ((∃ c', checkInterface x binder c = .ok (true, c')) ↔ TokenStands c.parcel d) ∧
      (∀ c', checkInterface x binder c = .ok (true, c') →
        c'.parcel.mDataPos = c.parcel.mDataPos + tokenSize d) ∧
      ∀ (y : Calls W) (sender : Ctx W) (token : BinderString) (e : List UInt8),
        sender.parcel = empty → Ample sender.heap → token.Carries e →
        ∃ sent, writeInterfaceToken y token sender = .ok (STATUS_OK, sent) ∧
          sent.parcel.mDataSize = tokenSize e ∧
          (c.parcel.mDataPos + tokenSize e ≤ c.parcel.mDataSize →
            window c.parcel.cells c.parcel.mDataPos (tokenSize e) =
              window sent.parcel.cells 0 (tokenSize e) →
            ((∃ c', checkInterface x binder c = .ok (true, c')) ↔ e = d)) := by
  have hspec := checkInterface.accepts hx hd hne r
  have htaken : (∃ c', checkInterface x binder c = .ok (true, c')) ↔ TokenStands c.parcel d := by
    constructor
    · rintro ⟨c', hrun⟩
      exact (hspec.of_ok hrun).1.mp rfl
    · intro hstands
      rcases hrun : checkInterface x binder c with fault | ⟨accepted, c'⟩
      · exact absurd hstands ((wp_of_error hrun).mp hspec)
      · have haccepted : accepted = true := (hspec.of_ok hrun).1.mpr hstands
        exact ⟨c', by rw [haccepted]⟩
  refine ⟨htaken, fun c' hrun => ?_, fun y sender token e hempty hample he => ?_⟩
  · rw [(hspec.of_ok hrun).2 rfl]
    exact Nat.add_assoc _ _ _
  · obtain ⟨status, sent, hrun, rfl, -, hsize, hstands⟩ :=
      wp_never_iff.mp (writeInterfaceToken.spec (x := y) hempty hample he he.fits)
    refine ⟨sent, hrun, hsize, fun hin hbytes => ?_⟩
    have harrived : TokenStands c.parcel e := hstands.of_bytes hbytes hin
    rw [htaken]
    constructor
    · intro htoken
      exact harrived.unique htoken
    · rintro rfl
      exact harrived

/-- The token of `hi`, as a receiver gets it. -/
def hiToken : List UInt8 :=
  [0, 0, 0, 128] ++ [255, 255, 255, 255] ++ [84, 83, 89, 83] ++ [2, 0, 0, 0] ++ [104, 105, 0, 0]

theorem the_token_of_hi_is_taken :
    (∃ c', checkInterface quiet 1 ⟨received hiToken, plenty, ()⟩ = .ok (true, c')) ∧
      ∃ sent, writeInterfaceToken quiet hi ⟨empty, plenty, ()⟩ = .ok (STATUS_OK, sent) ∧
        sent.parcel.mDataSize = 20 := by
  have h := the_token_of_the_interface_is_taken quiet ⟨received hiToken, plenty, ()⟩ 1 () hi
    [104, 105] ⟨by decide, by decide, by decide⟩ rfl hi_holds.carries (by decide)
  obtain ⟨sent, hrun, hsize, -⟩ := h.2.2 quiet ⟨empty, plenty, ()⟩ hi [104, 105] rfl
    (fun _ hnone => by cases hnone) hi_holds.carries
  exact ⟨h.1.mpr ⟨by decide, by decide, by decide, by decide, by decide⟩, sent, hrun, hsize⟩

end system_binder.Parcel
