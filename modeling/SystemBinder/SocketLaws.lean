-- The laws of the socket queue: what the result of a call says of its bytes, and that the items
-- keep their order through both ends and every cut of the stream.
import SystemBinder.SocketQueue

open prog

namespace system_binder

namespace SocketQueueBase

variable {T : Type} {L : Layout T}

/-! ## What a call keeps -/

/-- A call in its loop: nothing failed, and what it moved and what remains make up `total`. -/
structure InLoop (total : Nat) (c : Call) : Prop where
  result : c.result = true
  errno : c.errno = 0
  offset : c.offset = c.moved.length
  remain : c.remain + c.moved.length = total

/-- A call that returned tells whether it moved everything. -/
structure Told (total : Nat) (c : Call) : Prop where
  result : c.result = true ↔ c.moved.length = total
  moved : c.moved.length ≤ total

theorem InLoop.start {nMessages : Nat} {data : List UInt8}
    (h : nMessages * L.sizeof ≤ PTRDIFF_MAX) :
    InLoop (nMessages * L.sizeof) (Call.start L nMessages data) where
  result := rfl
  errno := rfl
  offset := rfl
  remain := by
    have hlt : nMessages * L.sizeof < SIZE_MAX + 1 := by
      unfold PTRDIFF_MAX at h
      unfold SIZE_MAX
      omega
    simp [Call.start, Nat.mod_eq_of_lt hlt]

theorem InLoop.told {total : Nat} {c : Call} (h : InLoop total c) (hdone : c.remain = 0) :
    Told total c where
  result := by simp [h.result, ← h.remain, hdone]
  moved := by simp [← h.remain]

/-- A transfer moves the loop on, as `errno` still holds what the call put there. -/
theorem turn_of_moved {c : Call} {count : Nat} (h : c.errno = 0) (hpos : 0 < count) :
    c.turn (.moved count) =
      ({ c with offset := c.offset + count, remain := c.remain - count }, true) := by
  have hne : ¬(0 : Int) = EWOULDBLOCK := by decide
  have hret : ¬count = 0 := by omega
  simp [Call.turn, Answer.errno, Answer.ret, h, hne, hret]

/-- Whatever moves nothing breaks the loop, at one of its two checks. -/
theorem turn_of_stuck {c : Call} {answer : Answer} (h : answer.ret ≤ 0) :
    c.turn answer = ({ c with errno := answer.errno c.errno, result := false }, false) := by
  unfold Call.turn
  dsimp only
  rw [if_pos h, ite_self]

theorem turn_same {c : Call} {answer : Answer} :
    (c.turn answer).1.data = c.data ∧ (c.turn answer).1.moved = c.moved := by
  unfold Call.turn
  dsimp only
  split_ifs <;> exact ⟨rfl, rfl⟩

theorem count_le_of_within {limit : Nat} {answer : Answer} (h : answer.Within limit) :
    answer.count ≤ limit := by
  cases answer with
  | moved count => exact h.2
  | ends => exact Nat.zero_le _
  | fails _ => exact Nat.zero_le _

theorem InLoop.broken {total : Nat} {c : Call} {answer : Answer} {data : List UInt8}
    (h : InLoop total c) (hmore : 0 < c.remain) (hstuck : answer.ret ≤ 0) :
    Told total ({ c with data := data }.turn answer).1 := by
  have hless : c.moved.length < total := by
    have hsum := h.remain
    omega
  rw [turn_of_stuck hstuck]
  exact ⟨by simp [hless.ne], hless.le⟩

/-- A turn of the loop after the bytes were moved. Where it breaks, some were left. -/
theorem InLoop.turn {total : Nat} {c : Call} {answer : Answer} {d bytes : List UInt8}
    (h : InLoop total c) (hmore : 0 < c.remain) (hwithin : answer.Within c.remain)
    (hbytes : bytes.length = answer.count) :
    let r := { c with data := d, moved := c.moved ++ bytes }.turn answer
    (r.2 = true → InLoop total r.1) ∧ (r.2 = false → Told total r.1) := by
  cases answer with
  | moved count =>
    obtain ⟨hpos, hle⟩ := hwithin
    have hlen : bytes.length = count := hbytes
    have hsum := h.remain
    have hgoes := turn_of_moved (c := { c with data := d, moved := c.moved ++ bytes })
      h.errno hpos
    rw [hgoes]
    refine ⟨fun _ => ⟨h.result, h.errno, ?_, ?_⟩, fun hbreak => by cases hbreak⟩
    · simp [h.offset, hlen]
    · simp [hlen]
      omega
  | ends =>
    have hnil : bytes = [] := List.length_eq_zero_iff.mp hbytes
    have hstuck : Answer.ends.ret ≤ 0 := by simp [Answer.ret]
    rw [hnil, List.append_nil]
    refine ⟨fun hgoes => ?_, fun _ => h.broken hmore hstuck⟩
    simp [turn_of_stuck hstuck] at hgoes
  | fails errno =>
    have hnil : bytes = [] := List.length_eq_zero_iff.mp hbytes
    have hstuck : (Answer.fails errno).ret ≤ 0 := by simp [Answer.ret]
    rw [hnil, List.append_nil]
    refine ⟨fun hgoes => ?_, fun _ => h.broken hmore hstuck⟩
    simp [turn_of_stuck hstuck] at hgoes

/-! ## What an end keeps -/

section

variable {α : Type} {total : α → Nat} {Fits : α → List UInt8 → List UInt8 → Prop} {e : End α}

/-- The calls of one end. `Fits` says how the memory and the bytes moved belong together. -/
structure End.Sound (total : α → Nat) (Fits : α → List UInt8 → List UInt8 → Prop)
    (e : End α) : Prop where
  running : ∀ args c, e.running = some (args, c) →
    InLoop (total args) c ∧ 0 < c.remain ∧ Fits args c.data c.moved
  returned : ∀ args c, (args, c) ∈ e.returned →
    Told (total args) c ∧ Fits args c.data c.moved

/-- What the returned calls and the running one moved, in order. -/
def End.moved (e : End α) : List UInt8 :=
  e.returned.flatMap (·.2.moved) ++ (e.running.elim [] (·.2.moved))

theorem End.Sound.returns {args : α} {c : Call} (h : e.Sound total Fits)
    (hc : Told (total args) c) (hfits : Fits args c.data c.moved) :
    End.Sound total Fits { running := none, returned := e.returned ++ [(args, c)] } where
  running := fun _ _ hrun => by simp at hrun
  returned := by
    intro args' c' hmem
    rw [List.mem_append, List.mem_singleton] at hmem
    rcases hmem with hold | hnew
    · exact h.returned args' c' hold
    · cases hnew
      exact ⟨hc, hfits⟩

theorem End.Sound.loop {args : α} {c : Call} (h : e.Sound total Fits)
    (hc : InLoop (total args) c) (hfits : Fits args c.data c.moved) :
    (e.loop args c).Sound total Fits := by
  unfold End.loop
  split_ifs with hmore
  · refine ⟨fun args' c' hrun => ?_, h.returned⟩
    cases hrun
    exact ⟨hc, Nat.pos_of_ne_zero hmore, hfits⟩
  · exact h.returns (hc.told (by omega)) hfits

theorem End.Sound.next {args : α} {c : Call} {answer : Answer} {data bytes : List UInt8}
    (h : e.Sound total Fits) (hrun : e.running = some (args, c))
    (hwithin : answer.Within c.remain) (hbytes : bytes.length = answer.count)
    (hfits : Fits args data (c.moved ++ bytes)) :
    (e.next args { c with data := data, moved := c.moved ++ bytes } answer).Sound total Fits := by
  obtain ⟨hin, hmore, -⟩ := h.running args c hrun
  obtain ⟨hgoes, hbreaks⟩ := hin.turn (d := data) hmore hwithin hbytes
  unfold End.next
  dsimp only
  split_ifs with hr
  · apply h.loop (hgoes hr)
    rwa [turn_same.1, turn_same.2]
  · apply h.returns (hbreaks (by simpa using hr))
    rwa [turn_same.1, turn_same.2]

theorem loop_moved {args : α} {c : Call} :
    (e.loop args c).moved = e.returned.flatMap (·.2.moved) ++ c.moved := by
  unfold End.loop End.moved
  split_ifs <;> simp

theorem next_moved {args : α} {c : Call} {answer : Answer} :
    (e.next args c answer).moved = e.returned.flatMap (·.2.moved) ++ c.moved := by
  unfold End.next
  dsimp only
  split_ifs
  · rw [loop_moved, turn_same.2]
  · simp [End.moved, turn_same.2]

theorem moved_of_running {args : α} {c : Call} (h : e.running = some (args, c)) :
    e.moved = e.returned.flatMap (·.2.moved) ++ c.moved := by
  simp [End.moved, h]

theorem moved_of_none (h : e.running = none) :
    e.moved = e.returned.flatMap (·.2.moved) := by
  simp [End.moved, h]

end

/-! ## What the queue keeps -/

/-- A write hands over the bytes of its array from the front. -/
def Hands (args : Source L) (data moved : List UInt8) : Prop :=
  data = L.array args.data ∧ moved <+: data

/-- A read fills its memory from the front. -/
def Fills (args : Target L) (data moved : List UInt8) : Prop :=
  data = moved ++ args.data.drop moved.length

/-- Both ends are sound, and what is on its way was written and not read. -/
structure Flowing (q : Queue L) : Prop where
  writer : q.writer.Sound (fun args => args.data.length * L.sizeof) Hands
  reader : q.reader.Sound (fun args => args.nMessages * L.sizeof) Fills
  stream : q.writer.moved = q.reader.moved ++ q.stream

theorem length_array (items : List T) : (L.array items).length = items.length * L.sizeof := by
  simp [Layout.array, List.length_flatMap, L.length_bytes]

theorem Flowing.start : Flowing (Queue.start L) where
  writer := ⟨(fun _ _ hrun => nomatch hrun), (fun _ _ hmem => nomatch hmem)⟩
  reader := ⟨(fun _ _ hrun => nomatch hrun), (fun _ _ hmem => nomatch hmem)⟩
  stream := rfl

theorem Flowing.write {q : Queue L} (h : Flowing q) (data : Source L)
    (hidle : q.writer.running = none) : Flowing (write q data) where
  writer := h.writer.loop (InLoop.start data.inMemory) ⟨rfl, List.nil_prefix⟩
  reader := h.reader
  stream := by
    have hflow := h.stream
    rw [moved_of_none hidle] at hflow
    simpa [SocketQueueBase.write, loop_moved, Call.start] using hflow

theorem Flowing.read {q : Queue L} (h : Flowing q) (data : Target L)
    (hidle : q.reader.running = none) : Flowing (read q data) where
  writer := h.writer
  reader := h.reader.loop (InLoop.start data.inMemory) (by simp [Fills, Call.start])
  stream := by
    have hflow := h.stream
    rw [moved_of_none hidle] at hflow
    simpa [SocketQueueBase.read, loop_moved, Call.start] using hflow

theorem Flowing.wrote {q : Queue L} {data : Source L} {c : Call} {answer : Answer}
    (h : Flowing q) (hrun : q.writer.running = some (data, c))
    (hwithin : answer.Within c.remain) : Flowing (wrote q data c answer) := by
  obtain ⟨hin, -, hdata, hleading⟩ := h.writer.running data c hrun
  have hsum := hin.remain
  have hcount := count_le_of_within hwithin
  have hoffset : c.offset.toNat = c.moved.length := by simp [hin.offset]
  have hlen : (c.taken answer).length = answer.count := by
    unfold Call.taken
    rw [hoffset, List.length_take, List.length_drop, hdata, length_array]
    omega
  -- the next bytes of the array go on from those that were moved
  have hnext : c.moved ++ c.taken answer = c.data.take (c.moved.length + answer.count) := by
    unfold Call.taken
    rw [List.take_add, hoffset, ← List.prefix_iff_eq_take.mp hleading]
  refine ⟨h.writer.next hrun hwithin hlen ⟨hdata, ?_⟩, h.reader, ?_⟩
  · rw [hnext]
    exact List.take_prefix _ _
  · have hflow := h.stream
    rw [moved_of_running hrun] at hflow
    unfold SocketQueueBase.wrote
    rw [next_moved]
    simp only [← List.append_assoc, hflow]

theorem Flowing.received {q : Queue L} {data : Target L} {c : Call} {answer : Answer}
    (h : Flowing q) (hrun : q.reader.running = some (data, c))
    (hwithin : answer.Within (min c.remain q.stream.length)) :
    Flowing (received q data c answer) := by
  obtain ⟨hin, -, hfills⟩ := h.reader.running data c hrun
  have hsum := hin.remain
  have hcount := count_le_of_within hwithin
  have hoffset : c.offset.toNat = c.moved.length := by simp [hin.offset]
  have hlen : (q.stream.take answer.count).length = answer.count := by
    rw [List.length_take]
    omega
  have hroom : answer.Within c.remain := by
    cases answer with
    | moved count => exact ⟨hwithin.1, hwithin.2.trans (min_le_left _ _)⟩
    | ends => trivial
    | fails _ => trivial
  have hput : (c.put (q.stream.take answer.count)).data =
      (c.moved ++ q.stream.take answer.count) ++
        data.data.drop (c.moved ++ q.stream.take answer.count).length := by
    unfold Call.put
    rw [hoffset, hfills, List.take_left', ← List.drop_drop, List.drop_left', List.drop_drop,
      List.length_append]
    · rfl
    · rfl
  refine ⟨h.writer, h.reader.next (c := c) hrun hroom hlen hput, ?_⟩
  have hflow := h.stream
  rw [moved_of_running hrun] at hflow
  unfold SocketQueueBase.received
  rw [next_moved]
  simp only [hflow, List.append_assoc, List.take_append_drop]

theorem Flowing.step {e : Event L} {q q' : Queue L} (hstep : step e q = some q')
    (h : Flowing q) : Flowing q' := by
  unfold SocketQueueBase.step at hstep
  split at hstep
  · cases hstep
    exact h.write _ ‹_›
  · split_ifs at hstep with hwithin
    cases hstep
    exact h.wrote ‹_› hwithin
  · cases hstep
    exact h.read _ ‹_›
  · split_ifs at hstep with hwithin
    cases hstep
    exact h.received ‹_› hwithin
  · cases hstep

theorem Flowing.after {events : List (Event L)} {q : Queue L}
    (h : after SocketQueueBase.step events (Queue.start L) = some q) : Flowing q :=
  after_inv Flowing (fun _ _ _ hstep => Flowing.step hstep) h .start

/-! ## Every batch arrives -/

/-- What the result of `write` says of the bytes that went out. -/
structure WriteTold (args : Source L) (c : Call) : Prop where
  all : c.result = true ↔ c.moved = L.array args.data
  less : c.result = false → c.moved <+: L.array args.data ∧ c.moved ≠ L.array args.data

/-- What the result of `read` says of the bytes that came in, which fill the memory from its
front. -/
structure ReadTold (args : Target L) (c : Call) : Prop where
  all : c.result = true ↔ c.moved.length = args.nMessages * L.sizeof
  less : c.result = false → c.moved.length < args.nMessages * L.sizeof
  filled : c.data = c.moved ++ args.data.drop c.moved.length

namespace Queue

/-- Every call so far returned true. -/
def Succeeded (q : Queue L) : Prop :=
  (∀ args c, (args, c) ∈ q.writer.returned → c.result = true) ∧
  ∀ args c, (args, c) ∈ q.reader.returned → c.result = true

/-- What `write` was called with, in order. -/
def itemsWritten (q : Queue L) : List T :=
  q.writer.returned.flatMap (·.1.data) ++ q.writer.running.elim [] (·.1.data)

/-- What `read` left in the memory that it was given, in order. -/
def itemsRead (q : Queue L) : List T :=
  q.reader.returned.flatMap fun (args, c) => L.items args.nMessages c.data

end Queue

theorem End.Sound.writeTold {e : End (Source L)}
    (h : e.Sound (fun args => args.data.length * L.sizeof) Hands) {args : Source L} {c : Call}
    (hmem : (args, c) ∈ e.returned) : WriteTold args c := by
  obtain ⟨⟨hresult, hmoved⟩, hdata, hleading⟩ := h.returned args c hmem
  rw [hdata] at hleading
  have heq : c.moved = L.array args.data ↔ c.moved.length = args.data.length * L.sizeof := by
    rw [← length_array]
    exact ⟨fun h => by rw [h], hleading.eq_of_length⟩
  refine ⟨hresult.trans heq.symm, fun hfalse => ⟨hleading, fun hall => ?_⟩⟩
  have htrue := hresult.mpr (heq.mp hall)
  simp [hfalse] at htrue

theorem End.Sound.readTold {e : End (Target L)}
    (h : e.Sound (fun args => args.nMessages * L.sizeof) Fills) {args : Target L} {c : Call}
    (hmem : (args, c) ∈ e.returned) : ReadTold args c := by
  obtain ⟨⟨hresult, hmoved⟩, hfills⟩ := h.returned args c hmem
  refine ⟨hresult, fun hfalse => ?_, hfills⟩
  have hne : c.moved.length ≠ args.nMessages * L.sizeof := by simpa [hfalse] using hresult
  omega

/-! ## Items and their bytes -/

theorem array_append (ts us : List T) : L.array (ts ++ us) = L.array ts ++ L.array us := by
  simp [Layout.array]

/-- The items of a part of an array are the items it has there. -/
theorem items_of_prefix {memory : List UInt8} {ts : List T} (n : Nat)
    (hlen : memory.length = n * L.sizeof) (h : memory <+: L.array ts) :
    L.items n memory = ts.take n := by
  induction n generalizing memory ts with
  | zero => simp [Layout.items]
  | succ n ih =>
    have hmul : (n + 1) * L.sizeof = n * L.sizeof + L.sizeof := Nat.succ_mul n L.sizeof
    have hpos := L.sizeof_pos
    cases ts with
    | nil =>
      have hnil : memory = [] := by simpa [Layout.array] using h
      simp only [hnil, List.length_nil] at hlen
      omega
    | cons t ts =>
      obtain ⟨rest, hrest⟩ := h
      have hbytes := L.length_bytes t
      have hcons : L.array (t :: ts) = L.bytes t ++ L.array ts := by simp [Layout.array]
      have hfirst : memory.take L.sizeof = L.bytes t := by
        have htake := congrArg (List.take L.sizeof) hrest
        rwa [hcons, List.take_append_of_le_length (by omega), List.take_left' hbytes] at htake
      have hafter : memory.drop L.sizeof <+: L.array ts := by
        have hdrop := congrArg (List.drop L.sizeof) hrest
        rw [hcons, List.drop_append_of_le_length (by omega), List.drop_left' hbytes] at hdrop
        exact ⟨rest, hdrop⟩
      have hless : (memory.drop L.sizeof).length = n * L.sizeof := by
        rw [List.length_drop]
        omega
      rw [Layout.items, hfirst, L.value_bytes, ih hless hafter, List.take_succ_cons]

theorem items_append {memory more : List UInt8} (n k : Nat)
    (hlen : memory.length = n * L.sizeof) :
    L.items (n + k) (memory ++ more) = L.items n memory ++ L.items k more := by
  induction n generalizing memory with
  | zero =>
    have hnil : memory = [] := List.length_eq_zero_iff.mp (by simpa using hlen)
    simp [Layout.items, hnil]
  | succ n ih =>
    have hmul : (n + 1) * L.sizeof = n * L.sizeof + L.sizeof := Nat.succ_mul n L.sizeof
    have hless : (memory.drop L.sizeof).length = n * L.sizeof := by
      rw [List.length_drop]
      omega
    rw [show n + 1 + k = n + k + 1 by omega, Layout.items, Layout.items,
      List.take_append_of_le_length (by omega), List.drop_append_of_le_length (by omega), ih hless,
      List.cons_append]

/-- The batches of the reader, one after the other, are one array. -/
theorem items_of_batches {batches : List (Target L × Call)}
    (h : ∀ args c, (args, c) ∈ batches →
      c.data = c.moved ∧ c.moved.length = args.nMessages * L.sizeof) :
    ∃ n, (batches.flatMap (·.2.moved)).length = n * L.sizeof ∧
      (batches.flatMap fun (args, c) => L.items args.nMessages c.data) =
        L.items n (batches.flatMap (·.2.moved)) := by
  induction batches with
  | nil => exact ⟨0, by simp [Layout.items]⟩
  | cons batch batches ih =>
    obtain ⟨args, c⟩ := batch
    obtain ⟨hdata, hlen⟩ := h args c List.mem_cons_self
    obtain ⟨n, hn, hitems⟩ := ih fun args' c' hmem => h args' c' (List.mem_cons_of_mem _ hmem)
    refine ⟨args.nMessages + n, ?_, ?_⟩
    · simp [hlen, hn, Nat.add_mul]
    · simp only [List.flatMap_cons, hitems, hdata, items_append args.nMessages n hlen]

/-- Batches that were all written are one array. -/
theorem moved_of_batches {batches : List (Source L × Call)}
    (h : ∀ args c, (args, c) ∈ batches → c.moved = L.array args.data) :
    batches.flatMap (·.2.moved) = L.array (batches.flatMap (·.1.data)) := by
  induction batches with
  | nil => rfl
  | cons batch batches ih =>
    obtain ⟨args, c⟩ := batch
    have hhead := h args c List.mem_cons_self
    have htail := ih fun args' c' hmem => h args' c' (List.mem_cons_of_mem _ hmem)
    simp only [List.flatMap_cons, array_append, hhead, htail]

namespace Flowing

variable {q : Queue L}

/-- What was written is a part of the array of all items, and all of it while no call runs. -/
theorem written (h : Flowing q) (hall : q.Succeeded) :
    q.writer.moved <+: L.array q.itemsWritten ∧
      (q.writer.running = none → q.writer.moved = L.array q.itemsWritten) := by
  have hreturned : q.writer.returned.flatMap (·.2.moved) =
      L.array (q.writer.returned.flatMap (·.1.data)) :=
    moved_of_batches fun args c hmem => (h.writer.writeTold hmem).all.mp (hall.1 args c hmem)
  unfold End.moved Queue.itemsWritten
  rw [array_append, hreturned]
  cases hrun : q.writer.running with
  | none => exact ⟨List.prefix_rfl, fun _ => rfl⟩
  | some call =>
    obtain ⟨args, c⟩ := call
    obtain ⟨-, -, hdata, hleading⟩ := h.writer.running args c hrun
    rw [hdata] at hleading
    exact ⟨(List.prefix_append_right_inj _).mpr hleading, fun hnone => by cases hnone⟩

/-- The items read are those whose bytes the returned calls took. -/
theorem read_items (h : Flowing q) (hall : q.Succeeded) :
    ∃ n, (q.reader.returned.flatMap (·.2.moved)).length = n * L.sizeof ∧
      q.itemsRead = L.items n (q.reader.returned.flatMap (·.2.moved)) := by
  apply items_of_batches
  intro args c hmem
  have htold := h.reader.readTold hmem
  have hlen := htold.all.mp (hall.2 args c hmem)
  have hnone : args.data.drop c.moved.length = [] := by
    rw [hlen, ← args.length_data, List.drop_length]
  refine ⟨?_, hlen⟩
  rw [htold.filled, hnone, List.append_nil]

/-- The items read begin the items written, and are all of them where nothing is left. -/
theorem in_order (h : Flowing q) (hall : q.Succeeded) :
    q.itemsRead <+: q.itemsWritten ∧
      (q.stream = [] → q.writer.running = none → q.reader.running = none →
        q.itemsRead = q.itemsWritten) := by
  obtain ⟨hpart, hwhole⟩ := h.written hall
  obtain ⟨n, hlen, hitems⟩ := h.read_items hall
  have hbytes : q.reader.returned.flatMap (·.2.moved) <+: L.array q.itemsWritten := by
    refine List.IsPrefix.trans ?_ hpart
    rw [h.stream, End.moved, List.append_assoc]
    exact List.prefix_append _ _
  have htake := items_of_prefix n hlen hbytes
  rw [hitems, htake]
  refine ⟨List.take_prefix _ _, fun hstream hwriter hreader => ?_⟩
  have hsame : q.reader.returned.flatMap (·.2.moved) = L.array q.itemsWritten := by
    rw [← hwhole hwriter, h.stream, hstream, List.append_nil, moved_of_none hreader]
  rw [hsame, length_array] at hlen
  rw [← Nat.eq_of_mul_eq_mul_right L.sizeof_pos hlen, List.take_length]

end Flowing

/-- However the kernel cuts the stream and whatever fails: a call returns true exactly where all
its bytes were moved, one that returned false moved less, and one that runs still has some to
move. While all calls return true, the reader has the items of the writer, in order. -/
theorem batches_arrive_in_order (L : Layout T) {events : List (Event L)} {q : Queue L}
    (h : after step events (Queue.start L) = some q) :
    (∀ args c, (args, c) ∈ q.writer.returned → WriteTold args c) ∧
    (∀ args c, (args, c) ∈ q.reader.returned → ReadTold args c) ∧
    (∀ args c, q.writer.running = some (args, c) →
      c.moved.length < args.data.length * L.sizeof) ∧
    (∀ args c, q.reader.running = some (args, c) →
      c.moved.length < args.nMessages * L.sizeof) ∧
    (q.Succeeded → q.itemsRead <+: q.itemsWritten ∧
      (q.stream = [] → q.writer.running = none → q.reader.running = none →
        q.itemsRead = q.itemsWritten)) := by
  have hflow := Flowing.after h
  refine ⟨fun _ _ => hflow.writer.writeTold, fun _ _ => hflow.reader.readTold,
    fun args c hrun => ?_, fun args c hrun => ?_, hflow.in_order⟩
  · obtain ⟨hin, hmore, -⟩ := hflow.writer.running args c hrun
    have hsum := hin.remain
    omega
  · obtain ⟨hin, hmore, -⟩ := hflow.reader.running args c hrun
    have hsum := hin.remain
    omega

/-- Pairs of bytes. -/
def pairs : Layout (UInt8 × UInt8) where
  sizeof := 2
  bytes := fun (a, b) => [a, b]
  value := fun bytes => (bytes.getD 0 0, bytes.getD 1 0)
  sizeof_pos := by decide
  length_bytes := fun _ => rfl
  value_bytes := fun _ => rfl

/-- Two pairs go out in two parts and come in one by one, the first in two parts. -/
def twoPairs : List (Event pairs) :=
  [.write ⟨[(1, 2), (3, 4)], by decide⟩, .wrote (.moved 3),
    .read ⟨1, [0, 0], rfl, by decide⟩, .received (.moved 1), .received (.moved 1),
    .wrote (.moved 1), .read ⟨1, [0, 0], rfl, by decide⟩, .received (.moved 2)]

theorem two_pairs_arrive : ∃ q : Queue pairs, q.itemsRead = [(1, 2), (3, 4)] ∧
    q.itemsRead <+: q.itemsWritten := by
  have hrun : (after step twoPairs (Queue.start pairs)).isSome = true := by decide
  obtain ⟨q, hq⟩ := Option.isSome_iff_exists.mp hrun
  have hread : (after step twoPairs (Queue.start pairs)).map (·.itemsRead) =
      some [(1, 2), (3, 4)] := by decide
  have hresults : (after step twoPairs (Queue.start pairs)).map (fun q =>
      q.writer.returned.all (·.2.result) && q.reader.returned.all (·.2.result)) = some true := by
    decide
  rw [hq] at hread hresults
  have hsucceeded : q.Succeeded := by
    simp only [Option.map_some, Option.some.injEq, Bool.and_eq_true, List.all_eq_true] at hresults
    exact ⟨fun args c => hresults.1 (args, c), fun args c => hresults.2 (args, c)⟩
  exact ⟨q, by simpa using hread, ((batches_arrive_in_order pairs hq).2.2.2.2 hsucceeded).1⟩

end SocketQueueBase

end system_binder
