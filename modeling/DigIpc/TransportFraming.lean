/-
Framing, from one `LineTransport` to another.

What is sent is a list of lines; what is received is the same list, as long as
every line fits under `MAX_FRAME_BYTES` with its newline. The induction is on
the number of calls made so far: after `i` calls the reader is at the `i`-th
line (`after_lines`), whatever its buffer holds and however the chunks were cut,
because `recv_frame_line` and `recv_frame_full` speak of the items to come only.

A `&str` has a newline exactly when its encoding has the newline's byte, which
is what lets a result about frames be read off the bytes.
-/
import DigIpc.TransportLines

set_option autoImplicit false

open StdIo

namespace DigIpc

/-! ## Newlines and their byte -/

/-- Only the newline has the newline's byte in its encoding. -/
theorem newline_of_mem_utf8EncodeChar {c : Char} (h : NEWLINE ∈ String.utf8EncodeChar c) :
    c = '\n' := by
  have hval : ∀ n : ℕ, NEWLINE = UInt8.ofNat n → n % 256 = 10 := by
    intro n hn
    have hnat := congrArg UInt8.toNat hn
    rw [UInt8.toNat_ofNat'] at hnat
    exact hnat.symm
  unfold String.utf8EncodeChar at h
  simp only at h
  by_cases h1 : c.val.toNat ≤ 127
  · rw [if_pos h1, List.mem_singleton] at h
    have hmod := hval _ h
    have hc : c.val.toNat = 10 := by omega
    exact Char.ext (UInt32.toNat_inj.mp hc)
  rw [if_neg h1] at h
  -- every byte of a longer encoding has its high bit set
  exfalso
  by_cases h2 : c.val.toNat ≤ 2047
  · rw [if_pos h2] at h
    simp only [List.mem_cons, List.not_mem_nil, or_false] at h
    rcases h with h | h <;> have := hval _ h <;> omega
  rw [if_neg h2] at h
  by_cases h3 : c.val.toNat ≤ 65535
  · rw [if_pos h3] at h
    simp only [List.mem_cons, List.not_mem_nil, or_false] at h
    rcases h with h | h | h <;> have := hval _ h <;> omega
  rw [if_neg h3] at h
  simp only [List.mem_cons, List.not_mem_nil, or_false] at h
  rcases h with h | h | h | h <;> have := hval _ h <;> omega

/-- A string's encoding is that of its characters, one after another. -/
theorem as_bytes_eq_flatMap (s : String) : as_bytes s = s.toList.flatMap String.utf8EncodeChar := by
  unfold as_bytes
  rw [String.toUTF8_eq_toByteArray]
  conv_lhs => rw [← String.ofList_toList (s := s), String.toByteArray_ofList]
  simp [List.utf8Encode]

theorem newline_notMem_as_bytes {s : String} (h : '\n' ∉ s.toList) : NEWLINE ∉ as_bytes s := by
  intro hmem
  rw [as_bytes_eq_flatMap, List.mem_flatMap] at hmem
  obtain ⟨c, hc, hbyte⟩ := hmem
  rw [newline_of_mem_utf8EncodeChar hbyte] at hc
  exact h hc

/-- A frame: no newline in it, and no carriage return at its end. -/
structure OneLine (frame : String) : Prop where
  no_newline : '\n' ∉ frame.toList
  no_return : frame.toList.getLast? ≠ some '\r'

/-- There is nothing to trim off a frame. -/
theorem OneLine.trim {frame : String} (h : OneLine frame) : trim_end_newlines frame = frame := by
  have hdrop : frame.toList.rdropWhile (fun c => decide (c = '\n' ∨ c = '\r')) = frame.toList := by
    rw [List.rdropWhile_eq_self_iff]
    intro hne hlast
    have hget : frame.toList.getLast? = some (frame.toList.getLast hne) :=
      List.getLast?_eq_some_getLast hne
    rw [decide_eq_true_eq] at hlast
    rcases hlast with hnl | hcr
    · exact h.no_newline (hnl ▸ List.getLast_mem hne)
    · exact h.no_return (by rw [hget, hcr])
  unfold trim_end_newlines
  rw [hdrop, String.ofList_toList]

namespace LineTransport

/-! ## Sending -/

/-- `written` is what a writer has accepted: a write or a flush that succeeds
changes it as documented. -/
structure Appends {W : Type} [Write W] (written : W → Bytes) : Prop where
  write_all : ∀ (w w' : W) (bs : Bytes), Write.write_all w bs = (.ok (), w') →
    written w' = written w ++ bs
  flush : ∀ w w' : W, Write.flush w = (.ok (), w') → written w' = written w

theorem appends_bytes : Appends (fun w : Bytes => w) where
  write_all := by
    rintro w w' bs ⟨⟩
    rfl
  flush := by
    rintro w w' ⟨⟩
    rfl

/-- The bytes of a list of frames, each on its line. -/
def lines (frames : List String) : Bytes := frames.flatMap fun frame => as_bytes frame ++ [NEWLINE]

variable {W V : Type}

/-- Send frames in order, up to the first error. -/
def send_frames [Write W] (self : LineTransport W) : List String → Except Error Unit × LineTransport W
  | [] => (.ok (), self)
  | frame :: frames =>
    match send_frame self frame with
    | (.error e, self) => (.error e, self)
    | (.ok (), self) => send_frames self frames

/-- A frame that was sent is a line on the stream. -/
theorem send_frame_ok [Write W] {written : W → Bytes} (happ : Appends written)
    {self self' : LineTransport W} {frame : String} (h : send_frame self frame = (.ok (), self')) :
    written self'.writer = written self.writer ++ (as_bytes frame ++ [NEWLINE]) := by
  unfold send_frame at h
  rcases hbody : Write.write_all self.writer (as_bytes frame) with ⟨_ | _, w₁⟩
  · rw [hbody] at h
    cases h
  rcases hend : Write.write_all w₁ [NEWLINE] with ⟨_ | _, w₂⟩
  · simp only [hbody, hend] at h
    cases h
  rcases hflush : Write.flush w₂ with ⟨r, w₃⟩
  simp only [hbody, hend, hflush] at h
  obtain ⟨rfl, rfl⟩ := Prod.mk.inj h
  show written w₃ = _
  rw [happ.flush _ _ hflush, happ.write_all _ _ _ hend, happ.write_all _ _ _ hbody,
    List.append_assoc]

theorem send_frames_ok [Write W] {written : W → Bytes} (happ : Appends written)
    (frames : List String) : ∀ {self self' : LineTransport W},
      send_frames self frames = (.ok (), self') →
        written self'.writer = written self.writer ++ lines frames := by
  induction frames with
  | nil =>
    rintro self self' ⟨⟩
    exact (List.append_nil _).symm
  | cons frame frames ih =>
    intro self self' h
    unfold send_frames at h
    rcases hsend : send_frame self frame with ⟨_ | _, self₁⟩
    · rw [hsend] at h
      cases h
    rw [hsend] at h
    rw [ih h, send_frame_ok happ hsend, List.append_assoc]
    rfl

/-! ## Receiving -/

/-- A scan takes no more bytes than its limit. -/
theorem scan_takes (delim : UInt8) (limit : ℕ) (items : List Item) (acc : Bytes) :
    (bytesOf items).length ≤ limit + (bytesOf (scan delim limit items acc).2).length := by
  induction limit, items, acc using scan.induct delim with
  | case1 items acc =>
    rw [scan]
    exact Nat.le_add_left _ _
  | case2 limit acc =>
    rw [scan]
    exact Nat.zero_le _
  | case3 limit e items acc hint ih =>
    rw [scan, if_pos hint]
    exact ih
  | case4 limit e items acc hint =>
    rw [scan, if_neg hint]
    exact Nat.le_add_left _ _
  | case5 limit items acc =>
    rw [scan, if_pos rfl, bytesOf, List.length_cons]
    simp only
    omega
  | case6 limit b items acc hb ih =>
    rw [scan, if_neg hb, bytesOf, List.length_cons]
    omega

/-- **No call takes more than the limit off the stream**, whatever is on it. -/
theorem recv_frame_takes (self : LineTransport W) :
    self.rest.length ≤ MAX_FRAME_BYTES + (recv_frame self).2.rest.length := by
  have hrecv := recv_frame_scan self
  have htakes := scan_takes NEWLINE MAX_FRAME_BYTES self.reader.items []
  rcases hscan : scan NEWLINE MAX_FRAME_BYTES self.reader.items [] with ⟨result, items⟩
  rw [hscan] at hrecv htakes
  have hitems : (recv_frame self).2.reader.items = items := by
    cases result <;> exact (Prod.mk.inj hrecv).2
  unfold rest
  rw [hitems]
  exact htakes

/-- At the end of the stream every call says so. -/
theorem recv_frame_end (self : LineTransport W) (hitems : self.reader.items = []) :
    (recv_frame self).1 = .error (Error.fromKind .UnexpectedEof) ∧
      (recv_frame self).2.reader.items = [] := by
  have hrecv := recv_frame_scan self
  have hscan : scan NEWLINE MAX_FRAME_BYTES [] [] = (.ok [], []) := by
    cases MAX_FRAME_BYTES <;> rw [scan]
  rw [hitems, hscan] at hrecv
  obtain ⟨hresult, hrest⟩ := Prod.mk.inj hrecv
  exact ⟨hresult, hrest⟩

/-- **After `i` calls the reader is at the `i`-th line**, if the lines before it
fit. -/
theorem after_lines {frames : List String} (hframes : ∀ frame ∈ frames, OneLine frame)
    (self : LineTransport W) {items : List Item}
    (hitems : self.reader.items = (lines frames).map .byte ++ items) (i : ℕ) (hi : i ≤ frames.length)
    (hfit : ∀ j (hj : j < frames.length), j < i → (as_bytes frames[j]).length < MAX_FRAME_BYTES) :
    (self.after i).reader.items = (lines (frames.drop i)).map .byte ++ items := by
  induction i with
  | zero => exact hitems
  | succ i ih =>
    have hhere := ih (by omega) fun j hj hji => hfit j hj (by omega)
    have hdrop : frames.drop i = frames[i] :: frames.drop (i + 1) := List.drop_eq_getElem_cons hi
    rw [hdrop] at hhere
    unfold lines at hhere
    rw [List.flatMap_cons, List.map_append, List.append_assoc] at hhere
    have hline := newline_notMem_as_bytes (hframes frames[i] (List.getElem_mem hi)).no_newline
    rw [after_succ]
    exact (recv_frame_line (self.after i) frames[i] hhere hline (hfit i hi (Nat.lt_succ_self i))).2

/-- The `i`-th call returns the `i`-th frame, if it and those before it fit. -/
theorem recv_frame_nth {frames : List String} (hframes : ∀ frame ∈ frames, OneLine frame)
    (self : LineTransport W) {items : List Item}
    (hitems : self.reader.items = (lines frames).map .byte ++ items) (i : ℕ) (hi : i < frames.length)
    (hfit : ∀ j (hj : j < frames.length), j ≤ i → (as_bytes frames[j]).length < MAX_FRAME_BYTES) :
    (recv_frame (self.after i)).1 = .ok frames[i] := by
  have hhere := after_lines hframes self hitems i hi.le fun j hj hji => hfit j hj hji.le
  have hone := hframes frames[i] (List.getElem_mem hi)
  rw [List.drop_eq_getElem_cons hi] at hhere
  unfold lines at hhere
  rw [List.flatMap_cons, List.map_append, List.append_assoc] at hhere
  have hrecv := (recv_frame_line (self.after i) frames[i] hhere
    (newline_notMem_as_bytes hone.no_newline) (hfit i hi le_rfl)).1
  rw [hrecv, hone.trim]

/-- **Framing is a round trip, up to an exact size.** Frames that one transport
has sent are what another receives, in order and with nothing else, however
their bytes are cut into chunks, as long as each of them has at most
`MAX_FRAME_BYTES - 1` bytes; after the last one every call is at the end of the
stream. If some frame has more, those before the first such frame are received
and the next call is refused. And no call on any stream takes more than
`MAX_FRAME_BYTES` bytes. -/
theorem framing_round_trip [Write W] {written : W → Bytes} (happ : Appends written)
    {sender sender' : LineTransport W} {frames : List String}
    (hsent : send_frames sender frames = (.ok (), sender'))
    (hframes : ∀ frame ∈ frames, OneLine frame) {stream : Bytes}
    (hstream : written sender'.writer = written sender.writer ++ stream)
    {receiver : LineTransport V} (hreceiver : receiver.reader.items = stream.map .byte) :
    ((∀ frame ∈ frames, (as_bytes frame).length ≤ MAX_FRAME_BYTES - 1) →
      (∀ i (hi : i < frames.length), (recv_frame (receiver.after i)).1 = .ok frames[i]) ∧
      ∀ i, frames.length ≤ i → ∃ e, (recv_frame (receiver.after i)).1 = .error e ∧
        e.kind = .UnexpectedEof) ∧
    (∀ n (hn : n < frames.length), MAX_FRAME_BYTES ≤ (as_bytes frames[n]).length →
      (∀ i (hi : i < frames.length), i < n → (as_bytes frames[i]).length ≤ MAX_FRAME_BYTES - 1) →
      (∀ i (hi : i < frames.length), i < n → (recv_frame (receiver.after i)).1 = .ok frames[i]) ∧
      ∃ e, (recv_frame (receiver.after n)).1 = .error e ∧ e.kind = .InvalidData) ∧
    ∀ self : LineTransport V, ∃ taken : Bytes, self.rest = taken ++ (recv_frame self).2.rest ∧
      taken.length ≤ MAX_FRAME_BYTES := by
  have hpos : 0 < MAX_FRAME_BYTES := by
    unfold MAX_FRAME_BYTES
    decide
  have hitems : receiver.reader.items = (lines frames).map .byte ++ [] := by
    rw [send_frames_ok happ frames hsent, List.append_cancel_left_eq] at hstream
    rw [hreceiver, hstream, List.append_nil]
  refine ⟨?_, ?_, ?_⟩
  · intro hshort
    have hfit : ∀ j (hj : j < frames.length), (as_bytes frames[j]).length < MAX_FRAME_BYTES := by
      intro j hj
      have hle := hshort frames[j] (List.getElem_mem hj)
      omega
    -- past the last frame the stream is empty, and stays so
    have hend : ∀ k, (receiver.after (frames.length + k)).reader.items = [] := by
      intro k
      induction k with
      | zero =>
        have hlast := after_lines hframes receiver hitems frames.length le_rfl fun j hj _ => hfit j hj
        rw [List.drop_length] at hlast
        exact hlast
      | succ k ih =>
        rw [← Nat.add_assoc, after_succ]
        exact (recv_frame_end _ ih).2
    constructor
    · intro i hi
      exact recv_frame_nth hframes receiver hitems i hi fun j hj _ => hfit j hj
    · intro i hi
      obtain ⟨k, rfl⟩ := Nat.exists_eq_add_of_le hi
      exact ⟨_, (recv_frame_end _ (hend k)).1, rfl⟩
  · intro n hn hlong hshort
    have hfit : ∀ j (hj : j < frames.length), j < n → (as_bytes frames[j]).length < MAX_FRAME_BYTES := by
      intro j hj hjn
      have hle := hshort j hj hjn
      omega
    constructor
    · intro i hi hin
      exact recv_frame_nth hframes receiver hitems i hi fun j hj hji => hfit j hj (by omega)
    · -- the first `MAX_FRAME_BYTES` bytes of the line fill the limit
      have hhere := after_lines hframes receiver hitems n hn.le hfit
      have hline := newline_notMem_as_bytes (hframes frames[n] (List.getElem_mem hn)).no_newline
      have hsplit : (receiver.after n).reader.items
          = ((as_bytes frames[n]).take MAX_FRAME_BYTES).map .byte ++
            ((as_bytes frames[n]).drop MAX_FRAME_BYTES ++ [NEWLINE]
              ++ lines (frames.drop (n + 1))).map .byte := by
        rw [hhere, List.drop_eq_getElem_cons hn, List.append_nil, ← List.map_append]
        unfold lines
        rw [List.flatMap_cons, ← List.append_assoc, ← List.append_assoc, List.take_append_drop]
      have hfull := recv_frame_full (receiver.after n) _ hsplit
        (fun hmem => hline (List.mem_of_mem_take hmem))
        (by rw [List.length_take]; exact Nat.min_eq_left hlong)
      exact ⟨_, hfull.1, rfl⟩
  · intro self
    obtain ⟨taken, htaken, -⟩ := recv_frame_rest self
    have hbound := recv_frame_takes self
    rw [htaken, List.length_append] at hbound
    exact ⟨taken, htaken, by omega⟩

/-- Two frames through a reader that splits them in the middle. -/
theorem framing_round_trip_second :
    (recv_frame ((⟨⟨[], [.data 97 [98, 10, 99], .data 100 [10]]⟩, []⟩ : LineTransport Bytes).after 1)).1
      = .ok "cd" := by
  have hsent : send_frames (⟨⟨[], []⟩, []⟩ : LineTransport Bytes) ["ab", "cd"]
      = (.ok (), ⟨⟨[], []⟩, [97, 98, 10, 99, 100, 10]⟩) := rfl
  have hframes : ∀ frame ∈ ["ab", "cd"], OneLine frame := by
    intro frame hframe
    rcases List.mem_cons.mp hframe with rfl | hframe
    · exact ⟨by decide, by decide⟩
    · rw [List.mem_singleton.mp hframe]
      exact ⟨by decide, by decide⟩
  have hshort : ∀ frame ∈ ["ab", "cd"], (as_bytes frame).length ≤ MAX_FRAME_BYTES - 1 := by
    have htwo : 2 ≤ MAX_FRAME_BYTES - 1 := by
      unfold MAX_FRAME_BYTES
      decide
    intro frame hframe
    rcases List.mem_cons.mp hframe with rfl | hframe
    · exact htwo
    · rw [List.mem_singleton.mp hframe]
      exact htwo
  have hreceiver : (⟨⟨[], [.data 97 [98, 10, 99], .data 100 [10]]⟩, []⟩ :
      LineTransport Bytes).reader.items = ([97, 98, 10, 99, 100, 10] : Bytes).map .byte := rfl
  obtain ⟨hall, -, -⟩ := framing_round_trip appends_bytes hsent hframes rfl hreceiver
  exact (hall hshort).1 1 Nat.one_lt_two

end LineTransport

end DigIpc
