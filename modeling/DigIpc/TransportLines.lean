/-
Line alignment: where the frames of a `LineTransport` start in the stream.

The transport keeps no record of having given up inside a line. A call that
meets the size limit, or a read error, after part of a line leaves the reader
there with the part it read dropped, and the next call takes the rest of the
line for a frame. `StopsInside` is the exact condition for that, on the stream
to come before the call; `scan_position` says what a call does to the position
either way, and the results about runs follow from it by induction on the calls.
-/
import DigIpc.Transport

set_option autoImplicit false

open StdIo

namespace DigIpc

/-! ## One scan -/

/-- The scan gives up inside a line, with bytes still to come: the limit is
used up, or an error that is not retried comes, before the line's delimiter and
after its first byte (`started`). -/
def StopsInside (delim : UInt8) : ℕ → Bool → List Item → Prop
  | 0, started, items => started = true ∧ bytesOf items ≠ []
  | _ + 1, _, [] => False
  | limit + 1, started, .error e :: items =>
    if e.kind = .Interrupted then StopsInside delim (limit + 1) started items
    else started = true ∧ bytesOf items ≠ []
  | limit + 1, _, .byte b :: items =>
    if b = delim then False else StopsInside delim limit true items

/-- Where the reader is in its line after reading `line`, with `rest` to come. -/
inductive Position (delim : UInt8) (started : Bool) (line rest : List UInt8) : Prop
  /-- Nothing was read. -/
  | still (h : line = []) (hs : started = false)
  /-- The line was read to its end. -/
  | atEnd (h : line.getLast? = some delim)
  /-- The stream has no more bytes. -/
  | exhausted (h : rest = [])

/-- What a scan read, as bytes: the result's own, or those dropped by an error. -/
theorem scan_bytes (delim : UInt8) : ∀ (limit : ℕ) (items : List Item) (acc : List UInt8),
    ∃ line, bytesOf items = line ++ bytesOf (scan delim limit items acc).2 ∧
      (∀ buf, (scan delim limit items acc).1 = .ok buf → buf = acc ++ line) := by
  intro limit items acc
  induction limit, items, acc using scan.induct delim with
  | case1 items acc =>
      rw [scan]
      refine ⟨[], rfl, fun buf hbuf => ?_⟩
      cases hbuf
      rw [List.append_nil]
  | case2 limit acc =>
      refine ⟨[], rfl, fun buf hbuf => ?_⟩
      rw [scan] at hbuf
      cases hbuf
      rw [List.append_nil]
  | case3 limit e items acc hint ih =>
      rw [scan, if_pos hint]
      exact ih
  | case4 limit e items acc hint =>
      rw [scan, if_neg hint]
      exact ⟨[], rfl, fun buf hbuf => by cases hbuf⟩
  | case5 limit items acc =>
      rw [scan, if_pos rfl]
      refine ⟨[delim], rfl, fun buf hbuf => ?_⟩
      cases hbuf
      rfl
  | case6 limit b items acc hb ih =>
      rw [scan, if_neg hb]
      obtain ⟨line, hline, hbuf⟩ := ih
      refine ⟨b :: line, ?_, fun buf h => ?_⟩
      · rw [bytesOf, hline, List.cons_append]
      · rw [hbuf buf h, List.append_assoc]
        rfl

/-- Reading one more byte of the same line. -/
theorem position_cons {delim b : UInt8} (hb : b ≠ delim) (started : Bool) (line rest : List UInt8) :
    Position delim started (b :: line) rest ↔ Position delim true line rest := by
  have hlast : (b :: line).getLast? = some delim ↔ line.getLast? = some delim := by
    rcases line with _ | ⟨c, line⟩
    · simpa using hb
    · rw [List.getLast?_cons_cons]
  constructor
  · rintro (⟨h, -⟩ | h | h)
    · cases h
    · exact .atEnd (hlast.mp h)
    · exact .exhausted h
  · rintro (⟨-, hs⟩ | h | h)
    · cases hs
    · exact .atEnd (hlast.mpr h)
    · exact .exhausted h

/-- Stopping without having read anything more of the line. -/
theorem position_nil (delim : UInt8) (started : Bool) (rest : List UInt8) :
    Position delim started [] rest ↔ ¬ (started = true ∧ rest ≠ []) := by
  constructor
  · rintro (⟨-, hs⟩ | h | h) ⟨hstarted, hrest⟩
    · rw [hs] at hstarted
      cases hstarted
    · cases h
    · exact hrest h
  · intro h
    by_cases hrest : rest = []
    · exact .exhausted hrest
    · have hs : started = false := by
        rw [Bool.eq_false_iff]
        exact fun hstarted => h ⟨hstarted, hrest⟩
      exact .still rfl hs

/-- **A scan leaves its line exactly when it does not stop inside.** -/
theorem scan_position (delim : UInt8) (limit : ℕ) (items : List Item) (acc : List UInt8) :
    ∀ (started : Bool) (line : List UInt8),
      bytesOf items = line ++ bytesOf (scan delim limit items acc).2 →
      (Position delim started line (bytesOf (scan delim limit items acc).2) ↔
        ¬ StopsInside delim limit started items) := by
  induction limit, items, acc using scan.induct delim with
  | case1 items acc =>
      intro started line hline
      rw [scan] at hline ⊢
      obtain rfl : line = [] := by simpa using hline
      rw [StopsInside]
      exact position_nil delim started _
  | case2 limit acc =>
      intro started line _
      rw [scan, StopsInside]
      exact iff_of_true (.exhausted rfl) not_false
  | case3 limit e items acc hint ih =>
      intro started line hline
      rw [scan, if_pos hint] at hline ⊢
      rw [StopsInside, if_pos hint]
      exact ih started line hline
  | case4 limit e items acc hint =>
      intro started line hline
      rw [scan, if_neg hint] at hline ⊢
      obtain rfl : line = [] := by simpa [bytesOf] using hline
      rw [StopsInside, if_neg hint]
      exact position_nil delim started _
  | case5 limit items acc =>
      intro started line hline
      rw [scan, if_pos rfl] at hline ⊢
      obtain rfl : line = [delim] := by
        rw [bytesOf] at hline
        exact (List.append_cancel_right (show [delim] ++ bytesOf items = _ from hline)).symm
      rw [StopsInside, if_pos rfl]
      exact iff_of_true (.atEnd rfl) not_false
  | case6 limit b items acc hb ih =>
      intro started line hline
      rw [scan, if_neg hb] at hline ⊢
      rw [StopsInside, if_neg hb]
      -- the rest of the scan is of a line already started, by this byte
      obtain ⟨line', hline', -⟩ := scan_bytes delim limit items (acc ++ [b])
      obtain rfl : line = b :: line' := by
        rw [bytesOf, hline'] at hline
        exact
          (List.append_cancel_right (show (b :: line') ++ _ = _ from hline)).symm
      rw [position_cons hb]
      exact ih true line' hline'

/-! ## One call -/

namespace LineTransport

variable {W : Type}

/-- The transport after `n` calls of `recv_frame`. -/
def after (n : ℕ) (self : LineTransport W) : LineTransport W :=
  (fun t => (recv_frame t).2)^[n] self

theorem after_succ (n : ℕ) (self : LineTransport W) :
    self.after (n + 1) = (recv_frame (self.after n)).2 :=
  Function.iterate_succ_apply' _ n self

/-- The bytes still to come. -/
def rest (self : LineTransport W) : Bytes := bytesOf self.reader.items

/-- The next call gives up inside a line, with more of the stream to come. -/
def GivesUpInside (self : LineTransport W) : Prop :=
  StopsInside NEWLINE MAX_FRAME_BYTES false self.reader.items

/-- A frame is the text of the bytes read, without its line ending. -/
theorem frame_of_ok {line : Bytes} {frame : String} (h : frame_of line.length line = .ok frame) :
    line ≠ [] ∧ ∃ text, from_utf8 line = some text ∧ frame = trim_end_newlines text := by
  unfold frame_of at h
  by_cases hzero : line.length = 0
  · rw [if_pos hzero] at h
    cases h
  rw [if_neg hzero] at h
  by_cases hlong : line.getLast? ≠ some NEWLINE ∧ MAX_FRAME_BYTES ≤ line.length
  · rw [if_pos hlong] at h
    cases h
  rw [if_neg hlong] at h
  refine ⟨fun hnil => hzero (by rw [hnil]; rfl), ?_⟩
  cases htext : from_utf8 line with
  | none =>
      rw [htext] at h
      cases h
  | some text =>
      rw [htext] at h
      cases h
      exact ⟨text, rfl, rfl⟩

/-- What one call takes off the stream, for any limit. -/
theorem recv_limited_rest (limit : ℕ) (self : LineTransport W) :
    ∃ line, self.rest = line ++ (recv_limited limit self).2.rest ∧
      (Position NEWLINE false line (recv_limited limit self).2.rest ↔
        ¬ StopsInside NEWLINE limit false self.reader.items) ∧
      ∀ frame, (recv_limited limit self).1 = .ok frame →
        line ≠ [] ∧ ∃ text, from_utf8 line = some text ∧ frame = trim_end_newlines text := by
  have hrecv := recv_limited_scan limit self
  obtain ⟨line, hline, hok⟩ := scan_bytes NEWLINE limit self.reader.items []
  have hpos := scan_position NEWLINE limit self.reader.items [] false line hline
  rcases hscan : scan NEWLINE limit self.reader.items [] with ⟨result, items⟩
  rw [hscan] at hrecv hline hok hpos
  have hitems : (recv_limited limit self).2.reader.items = items := by
    cases result <;> exact (Prod.mk.inj hrecv).2
  unfold rest
  rw [hitems]
  refine ⟨line, hline, hpos, fun frame hframe => ?_⟩
  -- only a scan that succeeded makes a frame, of the bytes it read
  cases result with
  | error e =>
      rw [(Prod.mk.inj hrecv).1] at hframe
      cases hframe
  | ok buf =>
      have hbuf : buf = line := by simpa using hok buf rfl
      rw [(Prod.mk.inj hrecv).1, hbuf] at hframe
      exact frame_of_ok hframe

/-- **What one call takes off the stream**: the bytes of its frame, or those it
drops with its error. It is then inside a line exactly when it gives up there. -/
theorem recv_frame_rest (self : LineTransport W) :
    ∃ line, self.rest = line ++ (recv_frame self).2.rest ∧
      (Position NEWLINE false line (recv_frame self).2.rest ↔ ¬ self.GivesUpInside) ∧
      ∀ frame, (recv_frame self).1 = .ok frame →
        line ≠ [] ∧ ∃ text, from_utf8 line = some text ∧ frame = trim_end_newlines text :=
  recv_limited_rest MAX_FRAME_BYTES self

/-! ## Runs of calls -/

/-- What is before the reader ends a line, or is nothing. -/
def Aligned (before : Bytes) : Prop := before = [] ∨ before.getLast? = some NEWLINE

/-- The frame that call `n` returned is made of bytes that begin at the start of
the stream or right after a newline. -/
def OnLine (self : LineTransport W) (n : ℕ) (frame : String) : Prop :=
  ∃ before line text, self.rest = before ++ (self.after n).rest ∧ Aligned before ∧
    (self.after n).rest = line ++ (self.after (n + 1)).rest ∧
    from_utf8 line = some text ∧ frame = trim_end_newlines text

/-- A call that stays on lines keeps the reader on them, or at the end. -/
theorem aligned_step {self : LineTransport W} {n : ℕ} {before line : Bytes}
    (hbefore : Aligned before ∨ (self.after n).rest = [])
    (hline : (self.after n).rest = line ++ (self.after (n + 1)).rest)
    (hpos : Position NEWLINE false line (self.after (n + 1)).rest) :
    Aligned (before ++ line) ∨ (self.after (n + 1)).rest = [] := by
  rcases hbefore with hbefore | hend
  · rcases hpos with ⟨rfl, -⟩ | hlast | hend
    · rw [List.append_nil]
      exact Or.inl hbefore
    · refine Or.inl (Or.inr ?_)
      rw [List.getLast?_append, hlast]
      rfl
    · exact Or.inr hend
  · rw [hend] at hline
    exact Or.inr (List.append_eq_nil_iff.mp hline.symm).2

/-- **As long as no call gives up inside a line, the reader is between lines**,
or at the end of the stream. -/
theorem after_aligned (self : LineTransport W) (n : ℕ)
    (h : ∀ i < n, ¬ (self.after i).GivesUpInside) :
    ∃ before, self.rest = before ++ (self.after n).rest ∧
      (Aligned before ∨ (self.after n).rest = []) := by
  induction n with
  | zero => exact ⟨[], rfl, Or.inl (Or.inl rfl)⟩
  | succ n ih =>
      obtain ⟨before, hbefore, halign⟩ := ih fun i hi => h i (Nat.lt_succ_of_lt hi)
      obtain ⟨line, hline, hpos, -⟩ := recv_frame_rest (self.after n)
      rw [← after_succ] at hline hpos
      have hstay := hpos.mpr (h n (Nat.lt_succ_self n))
      refine ⟨before ++ line, ?_, aligned_step halign hline hstay⟩
      rw [hbefore, hline, List.append_assoc]

/-- A call that gives up inside a line leaves the reader inside it. -/
theorem misaligned_step (self : LineTransport W) (n : ℕ) (before : Bytes)
    (hbefore : self.rest = before ++ (self.after n).rest)
    (hgives : (self.after n).GivesUpInside) {after : Bytes}
    (hafter : self.rest = after ++ (self.after (n + 1)).rest) :
    ¬ Aligned after ∧ (self.after (n + 1)).rest ≠ [] := by
  obtain ⟨line, hline, hpos, -⟩ := recv_frame_rest (self.after n)
  rw [← after_succ] at hline hpos
  have hinside : ¬ Position NEWLINE false line (self.after (n + 1)).rest :=
    fun hp => hpos.mp hp hgives
  have hne : line ≠ [] := fun h => hinside (.still h rfl)
  obtain rfl : after = before ++ line := by
    rw [hbefore, hline, ← List.append_assoc] at hafter
    exact (List.append_cancel_right hafter).symm
  refine ⟨?_, fun hend => hinside (.exhausted hend)⟩
  rintro (hnil | hlast)
  · exact hne (List.append_eq_nil_iff.mp hnil).2
  · rw [List.getLast?_append_of_ne_nil _ hne] at hlast
    exact hinside (.atEnd hlast)

/-- **Alignment, and exactly when it is lost.** Up to the first call that gives
up inside a line, every frame begins at the start of the stream or right after a
newline; and a frame returned right after such a call does not. -/
theorem recv_frame_on_line (self : LineTransport W) (n : ℕ)
    (h : ∀ i < n, ¬ (self.after i).GivesUpInside) (frame : String) :
    ((recv_frame (self.after n)).1 = .ok frame → self.OnLine n frame) ∧
    ((self.after n).GivesUpInside → (recv_frame (self.after (n + 1))).1 = .ok frame →
      ¬ self.OnLine (n + 1) frame) := by
  obtain ⟨before, hbefore, halign⟩ := self.after_aligned n h
  constructor
  · intro hok
    obtain ⟨line, hline, -, hframe⟩ := recv_frame_rest (self.after n)
    obtain ⟨hne, text, htext, rfl⟩ := hframe frame hok
    have halign' : Aligned before := by
      rcases halign with halign | hend
      · exact halign
      · rw [hend] at hline
        exact absurd (List.append_eq_nil_iff.mp hline.symm).1 hne
    exact ⟨before, line, text, hbefore, halign', by rw [after_succ]; exact hline, htext, rfl⟩
  · rintro hgives - ⟨after, -, -, hafter, hal, -⟩
    exact (misaligned_step self n before hbefore hgives hafter).1 hal

/-! ## Lines, whole and broken -/

/-- A whole line is taken, whatever comes after it. -/
theorem recv_frame_line_bytes (self : LineTransport W) (line : Bytes) {items : List Item}
    (hitems : self.reader.items = (line ++ [NEWLINE]).map .byte ++ items)
    (hline : NEWLINE ∉ line) (hlen : line.length < MAX_FRAME_BYTES) :
    (recv_frame self).1 = (match from_utf8 (line ++ [NEWLINE]) with
        | none => .error (Error.new .InvalidData "peer frame is not UTF-8")
        | some text => .ok (trim_end_newlines text)) ∧
      (recv_frame self).2.reader.items = items := by
  have hrecv := recv_frame_scan self
  rw [hitems, scan_line NEWLINE line hline _ _ _ hlen, List.nil_append] at hrecv
  obtain ⟨hresult, hrest⟩ := Prod.mk.inj hrecv
  refine ⟨?_, hrest⟩
  rw [hresult]
  have hnonempty : ¬ (line ++ [NEWLINE]).length = 0 := by
    rw [List.length_append, List.length_singleton]
    omega
  have hended : ¬ ((line ++ [NEWLINE]).getLast? ≠ some NEWLINE ∧
      MAX_FRAME_BYTES ≤ (line ++ [NEWLINE]).length) := by
    rintro ⟨hlast, -⟩
    exact hlast List.getLast?_concat
  refine (if_neg hnonempty).trans ((if_neg hended).trans ?_)
  cases from_utf8 (line ++ [NEWLINE]) with
  | none => rfl
  | some text => rfl

/-- If it is text, it is the next frame. -/
theorem recv_frame_line (self : LineTransport W) (text : String) {items : List Item}
    (hitems : self.reader.items = (as_bytes text ++ [NEWLINE]).map .byte ++ items)
    (hline : NEWLINE ∉ as_bytes text) (hlen : (as_bytes text).length < MAX_FRAME_BYTES) :
    (recv_frame self).1 = .ok (trim_end_newlines text) ∧
      (recv_frame self).2.reader.items = items := by
  have htext : from_utf8 (as_bytes text ++ [NEWLINE]) = some (text ++ "\n") := by
    rw [from_utf8_eq_some, as_bytes_append]
    rfl
  obtain ⟨hresult, hrest⟩ := recv_frame_line_bytes self (as_bytes text) hitems hline hlen
  refine ⟨?_, hrest⟩
  rw [hresult, htext]
  exact congrArg Except.ok (trim_end_newlines_newline text)

/-- `MAX_FRAME_BYTES` bytes without a newline are refused, and only they are taken. -/
theorem recv_frame_full (self : LineTransport W) (head : Bytes) {items : List Item}
    (hitems : self.reader.items = head.map .byte ++ items) (hhead : NEWLINE ∉ head)
    (hmax : head.length = MAX_FRAME_BYTES) :
    (recv_frame self).1 = .error (Error.new .InvalidData "peer frame exceeds the maximum size") ∧
      (recv_frame self).2.reader.items = items := by
  have hrecv := recv_frame_scan self
  have hscan : scan NEWLINE MAX_FRAME_BYTES self.reader.items [] = (.ok head, items) := by
    rw [hitems, ← hmax, scan_block NEWLINE head hhead _ _ _ le_rfl, Nat.sub_self, List.nil_append, scan]
  rw [hscan] at hrecv
  obtain ⟨hresult, hrest⟩ := Prod.mk.inj hrecv
  have hlast : head.getLast? ≠ some NEWLINE := fun h => hhead (List.mem_of_getLast? h)
  have hne : ¬ head.length = 0 := by
    rw [hmax]
    unfold MAX_FRAME_BYTES
    decide
  refine ⟨?_, hrest⟩
  rw [hresult]
  unfold frame_of
  rw [if_neg hne, if_pos ⟨hlast, hmax.ge⟩]

/-- **A line over the limit comes in two.** Its first `MAX_FRAME_BYTES` bytes
are refused, and the rest of it is the next frame, off the lines. -/
theorem recv_frame_overlong (self : LineTransport W) (head : Bytes) (tail : String)
    {items : List Item}
    (hitems : self.reader.items = head.map .byte ++ ((as_bytes tail ++ [NEWLINE]).map .byte ++ items))
    (hhead : NEWLINE ∉ head) (hmax : head.length = MAX_FRAME_BYTES)
    (htail : NEWLINE ∉ as_bytes tail) (hlen : (as_bytes tail).length < MAX_FRAME_BYTES) :
    (recv_frame self).1 = .error (Error.new .InvalidData "peer frame exceeds the maximum size") ∧
      (recv_frame (self.after 1)).1 = .ok (trim_end_newlines tail) ∧
      ¬ self.OnLine 1 (trim_end_newlines tail) := by
  obtain ⟨hresult, hrest⟩ := recv_frame_full self head hitems hhead hmax
  have hafter : (self.after 1).reader.items = (as_bytes tail ++ [NEWLINE]).map .byte ++ items := by
    rw [after_succ]
    exact hrest
  refine ⟨hresult, (recv_frame_line (self.after 1) tail hafter htail hlen).1, ?_⟩
  -- what is before the second call is the head, and the head ends no line
  rintro ⟨before, -, -, hbefore, halign, -⟩
  have hsplit : self.rest = head ++ (self.after 1).rest := by
    unfold rest
    rw [hitems, hafter, bytesOf_append, bytesOf_map_byte]
  obtain rfl : before = head := List.append_cancel_right (hbefore.symm.trans hsplit)
  rcases halign with hnil | hlast
  · have hpos : 0 < MAX_FRAME_BYTES := by unfold MAX_FRAME_BYTES; decide
    rw [hnil, List.length_nil] at hmax
    omega
  · exact hhead (List.mem_of_getLast? hlast)

/-- A line that is not UTF-8 is refused, and the next frame is on a line. -/
theorem recv_frame_on_line_after_error :
    ∃ self : LineTransport Bytes,
      (recv_frame self).1 = .error (Error.new .InvalidData "peer frame is not UTF-8") ∧
      (recv_frame (self.after 1)).1 = .ok "cd" ∧ self.OnLine 1 "cd" := by
  let self : LineTransport Bytes :=
    { reader := ⟨[], [.data 255 [10, 99, 100, 10]]⟩, writer := [] }
  have hitems : self.reader.items
      = ([255] ++ [NEWLINE]).map .byte ++ ((as_bytes "cd" ++ [NEWLINE]).map .byte ++ []) :=
    rfl
  have hmax : 2 < MAX_FRAME_BYTES := by unfold MAX_FRAME_BYTES; decide
  obtain ⟨herror, hafter⟩ := recv_frame_line_bytes self [255] hitems (by decide)
    (Nat.lt_of_succ_lt hmax)
  obtain ⟨hok, -⟩ := recv_frame_line (self.after 1) "cd" hafter (by decide) hmax
  have hstays : ∀ i < 1, ¬ (self.after i).GivesUpInside := by
    intro i hi
    obtain rfl : i = 0 := by omega
    obtain ⟨limit, hlimit⟩ : ∃ limit, MAX_FRAME_BYTES = limit + 3 :=
      ⟨MAX_FRAME_BYTES - 3, by omega⟩
    unfold GivesUpInside
    rw [hlimit]
    exact not_false
  have hundecodable : from_utf8 ([255] ++ [NEWLINE]) = none := by decide
  rw [hundecodable] at herror
  exact ⟨self, herror, hok, (recv_frame_on_line self 1 hstays "cd").1 hok⟩

/-- **A frame off the lines.** The peer writes `abcd` and a newline; a timeout
comes after `ab`, which is dropped, and the next call returns `cd`. -/
theorem recv_frame_not_on_line :
    ¬ ∀ (self : LineTransport Bytes) (n : ℕ) (frame : String),
      (recv_frame (self.after n)).1 = .ok frame → self.OnLine n frame := by
  intro hall
  let self : LineTransport Bytes :=
    { reader := ⟨[], [.data 97 [98], .error (Error.fromKind .TimedOut), .data 99 [100, 10]]⟩
      writer := [] }
  have hmax : 2 < MAX_FRAME_BYTES := by unfold MAX_FRAME_BYTES; decide
  obtain ⟨limit, hlimit⟩ : ∃ limit, MAX_FRAME_BYTES = limit + 3 :=
    ⟨MAX_FRAME_BYTES - 3, by omega⟩
  have hgives : (self.after 0).GivesUpInside := by
    unfold GivesUpInside
    rw [hlimit]
    exact ⟨rfl, by decide⟩
  -- the first call reads `ab`, and fails
  have hafter : (self.after 1).reader.items = (as_bytes "cd" ++ [NEWLINE]).map .byte ++ [] := by
    have hrecv := recv_frame_scan self
    rw [hlimit] at hrecv
    exact (Prod.mk.inj hrecv).2
  obtain ⟨hok, -⟩ := recv_frame_line (self.after 1) "cd" hafter (by decide) hmax
  obtain ⟨before, -, -, hbefore, halign, -⟩ := hall self 1 "cd" hok
  exact (misaligned_step self 0 [] rfl hgives hbefore).1 halign

/-- Nor is the rest of a line that was refused for its length. -/
theorem recv_frame_not_on_line_overlong :
    ¬ ∀ (self : LineTransport Bytes) (frame : String),
      (recv_frame self).1 = .error (Error.new .InvalidData "peer frame exceeds the maximum size") →
      (recv_frame (self.after 1)).1 = .ok frame → self.OnLine 1 frame := by
  intro hall
  let self : LineTransport Bytes :=
    { reader := ⟨List.replicate MAX_FRAME_BYTES 97, [.data 99 [100, 10]]⟩, writer := [] }
  have hitems : self.reader.items = (List.replicate MAX_FRAME_BYTES 97).map .byte ++
      ((as_bytes "cd" ++ [NEWLINE]).map .byte ++ []) := rfl
  have hmax : 2 < MAX_FRAME_BYTES := by unfold MAX_FRAME_BYTES; decide
  obtain ⟨hrefused, hok, hoff⟩ := recv_frame_overlong self (List.replicate MAX_FRAME_BYTES 97) "cd"
    hitems (fun hmem => absurd (List.eq_of_mem_replicate hmem) (by decide)) List.length_replicate
    (by decide) hmax
  exact hoff (hall self _ hrefused hok)

end LineTransport

end DigIpc
