/-
`std::io`, as far as buffered line reading goes: a library.

A reader is what its `read` calls will return, in order: each either a chunk of
at least one byte or an error, and end of stream for ever after the last. How
the bytes are cut into chunks is then part of the data, so a result about every
`List Read` is a result about every way of delivering a stream.

`read_until` is the standard library's loop over `fill_buf` and `consume`,
through a `Take` adaptor. `scan` says what it does without chunks or buffers: it
walks the bytes and errors to come one at a time. `read_until_scan` connects the
two, and is the only place where a buffer is looked into.
-/
import Mathlib.Data.List.Basic

set_option autoImplicit false

namespace StdIo

/-! ## Errors -/

/-- `std::io::ErrorKind`, the kinds a pipe gives. -/
inductive ErrorKind
  | UnexpectedEof
  | InvalidData
  | Interrupted
  | WouldBlock
  | TimedOut
  | BrokenPipe
  | ConnectionReset
  | Other
  deriving DecidableEq

/-- `std::io::Error`: a kind and, when made by `new`, a message. -/
structure Error where
  kind : ErrorKind
  message : Option String
  deriving DecidableEq

/-- `io::Error::from(kind)`. -/
def Error.fromKind (kind : ErrorKind) : Error := ⟨kind, none⟩

/-- `io::Error::new(kind, message)`. -/
def Error.new (kind : ErrorKind) (message : String) : Error := ⟨kind, some message⟩

/-! ## Readers -/

/-- What one `read` call of the underlying reader returns. A chunk is never
empty: an empty read is the end of the stream. -/
inductive Read
  | data (b : UInt8) (bs : List UInt8)
  | error (e : Error)
  deriving DecidableEq

/-- `BufReader`: the bytes read ahead, and the reads to come. -/
structure BufReader where
  buffer : List UInt8
  source : List Read
  deriving DecidableEq

namespace BufReader

/-- `BufReader::fill_buf`: one `read` when nothing is buffered. -/
def fill_buf (r : BufReader) : Except Error (List UInt8) × BufReader :=
  match r.buffer, r.source with
  | [], [] => (.ok [], r)
  | [], .data b bs :: source => (.ok (b :: bs), ⟨b :: bs, source⟩)
  | [], .error e :: source => (.error e, ⟨[], source⟩)
  | buffer, _ => (.ok buffer, r)

/-- `BufReader::consume`. -/
def consume (r : BufReader) (amt : ℕ) : BufReader := { r with buffer := r.buffer.drop amt }

end BufReader

/-- `Take<&mut BufReader>`: at most `limit` more bytes. -/
structure Take where
  inner : BufReader
  limit : ℕ

namespace Take

/-- `Take::fill_buf`: at limit zero the inner reader is not touched. -/
def fill_buf (t : Take) : Except Error (List UInt8) × Take :=
  if t.limit = 0 then (.ok [], t)
  else match t.inner.fill_buf with
    | (.error e, inner) => (.error e, { t with inner })
    | (.ok buf, inner) => (.ok (buf.take t.limit), { t with inner })

/-- `Take::consume`. -/
def consume (t : Take) (amt : ℕ) : Take :=
  { inner := t.inner.consume (min amt t.limit), limit := t.limit - min amt t.limit }

end Take

/-! ## The stream to come, without buffers -/

/-- One byte of the stream, or an error between two bytes. -/
inductive Item
  | byte (b : UInt8)
  | error (e : Error)
  deriving DecidableEq

/-- What one read contributes. -/
def Read.items : Read → List Item
  | .data b bs => .byte b :: bs.map .byte
  | .error e => [.error e]

/-- Everything still to come from a reader, in order. -/
def BufReader.items (r : BufReader) : List Item :=
  r.buffer.map .byte ++ r.source.flatMap Read.items

/-- The bytes among the items. -/
def bytesOf : List Item → List UInt8
  | [] => []
  | .byte b :: items => b :: bytesOf items
  | .error _ :: items => bytesOf items

/-- The bytes still to come. -/
def BufReader.bytes (r : BufReader) : List UInt8 := bytesOf r.items

@[simp] theorem bytesOf_append (a b : List Item) : bytesOf (a ++ b) = bytesOf a ++ bytesOf b := by
  induction a with
  | nil => rfl
  | cons i a ih => cases i <;> simp [bytesOf, ih]

@[simp] theorem bytesOf_map_byte (bs : List UInt8) : bytesOf (bs.map .byte) = bs := by
  induction bs with
  | nil => rfl
  | cons b bs ih => simp [bytesOf, ih]

/-- Reading up to and including `delim`, at most `limit` bytes, out of a stream
of items, onto `acc`: what was read or the error that stopped it, and the items
left. -/
def scan (delim : UInt8) : ℕ → List Item → List UInt8 → Except Error (List UInt8) × List Item
  | 0, items, acc => (.ok acc, items)
  | _ + 1, [], acc => (.ok acc, [])
  | limit + 1, .error e :: items, acc =>
    if e.kind = .Interrupted then scan delim (limit + 1) items acc else (.error e, items)
  | limit + 1, .byte b :: items, acc =>
    if b = delim then (.ok (acc ++ [b]), items) else scan delim limit items (acc ++ [b])

/-- A block of bytes without the delimiter, within the limit, is read whole. -/
theorem scan_block (delim : UInt8) (block : List UInt8) (hblock : delim ∉ block) :
    ∀ (limit : ℕ) (items : List Item) (acc : List UInt8), block.length ≤ limit →
      scan delim limit (block.map .byte ++ items) acc
        = scan delim (limit - block.length) items (acc ++ block) := by
  induction block with
  | nil => intro limit items acc _; simp
  | cons b block ih =>
      intro limit items acc hle
      rw [List.mem_cons, not_or] at hblock
      obtain ⟨n, rfl⟩ : ∃ n, limit = n + 1 :=
        ⟨limit - 1, by simp only [List.length_cons] at hle; omega⟩
      simp only [List.length_cons, Nat.add_le_add_iff_right] at hle
      simp only [List.map_cons, List.cons_append, scan, if_neg (Ne.symm hblock.1)]
      rw [ih hblock.2 n items (acc ++ [b]) hle]
      simp

/-- A block of bytes ending in the delimiter, within the limit, ends the scan. -/
theorem scan_line (delim : UInt8) (line : List UInt8) (hline : delim ∉ line)
    (limit : ℕ) (items : List Item) (acc : List UInt8) (hlen : line.length < limit) :
    scan delim limit ((line ++ [delim]).map .byte ++ items) acc
      = (.ok (acc ++ line ++ [delim]), items) := by
  rw [List.map_append, List.append_assoc, scan_block delim line hline _ _ _ (by omega)]
  obtain ⟨n, hn⟩ : ∃ n, limit - line.length = n + 1 := ⟨limit - line.length - 1, by omega⟩
  simp [hn, scan]

/-! ## What `fill_buf` can do -/

/-- The three outcomes of `BufReader::fill_buf`: end of stream, bytes that stay
buffered, or the error at the head of the stream. -/
theorem BufReader.fill_buf_cases (r : BufReader) :
    (r.fill_buf = (.ok [], r) ∧ r.items = []) ∨
    (∃ b bs r', r.fill_buf = (.ok (b :: bs), r') ∧ r'.buffer = b :: bs ∧ r'.items = r.items ∧
      r'.source.length ≤ r.source.length) ∨
    (∃ e r', r.fill_buf = (.error e, r') ∧ r.items = .error e :: r'.items ∧
      r'.source.length < r.source.length) := by
  obtain ⟨buffer, source⟩ := r
  rcases buffer with _ | ⟨b, bs⟩
  · rcases source with _ | ⟨_ | e, source⟩
    · exact Or.inl ⟨rfl, rfl⟩
    · rename_i b bs
      exact Or.inr (Or.inl ⟨b, bs, ⟨b :: bs, source⟩, rfl, rfl,
        by simp [items, Read.items], by simp⟩)
    · exact Or.inr (Or.inr ⟨e, ⟨[], source⟩, rfl, by simp [items, Read.items], by simp⟩)
  · exact Or.inr (Or.inl ⟨b, bs, ⟨b :: bs, source⟩, rfl, rfl, rfl, Nat.le_refl _⟩)

/-- The same three outcomes under a `Take`, which cuts the bytes at its limit. -/
theorem Take.fill_buf_cases (t : Take) :
    (t.fill_buf = (.ok [], t) ∧ (t.limit = 0 ∨ t.inner.items = [])) ∨
    (∃ available more t', t.fill_buf = (.ok available, t') ∧ available ≠ [] ∧
      available.length ≤ t.limit ∧ t'.limit = t.limit ∧ t'.inner.buffer = available ++ more ∧
      t'.inner.items = t.inner.items ∧ t'.inner.source.length ≤ t.inner.source.length) ∨
    (∃ e t', t.fill_buf = (.error e, t') ∧ t.limit ≠ 0 ∧ t'.limit = t.limit ∧
      t.inner.items = .error e :: t'.inner.items ∧
      t'.inner.source.length < t.inner.source.length) := by
  obtain ⟨inner, limit⟩ := t
  by_cases hl : limit = 0
  · exact Or.inl ⟨by simp [fill_buf, hl], Or.inl hl⟩
  · rcases inner.fill_buf_cases with ⟨hf, hi⟩ | ⟨b, bs, r', hf, hb, hi, hs⟩ | ⟨e, r', hf, hi, hs⟩
    · exact Or.inl ⟨by simp [fill_buf, hl, hf], Or.inr hi⟩
    · refine Or.inr (Or.inl ⟨(b :: bs).take limit, (b :: bs).drop limit, ⟨r', limit⟩,
        by simp only [fill_buf, if_neg hl, hf], ?_, ?_, rfl, ?_, hi, hs⟩)
      · simpa using hl
      · simp only [List.length_take]; omega
      · rw [List.take_append_drop]; exact hb
    · exact Or.inr (Or.inr ⟨e, ⟨r', limit⟩, by simp only [fill_buf, if_neg hl, hf], hl, rfl, hi, hs⟩)

/-- Consuming buffered bytes takes exactly those items off the stream. -/
theorem Take.consume_items {t : Take} {used more : List UInt8}
    (hb : t.inner.buffer = used ++ more) (hl : used.length ≤ t.limit) :
    t.inner.items = used.map .byte ++ (t.consume used.length).inner.items ∧
      (t.consume used.length).limit = t.limit - used.length ∧
      (t.consume used.length).inner.source = t.inner.source := by
  simp only [consume, BufReader.consume, BufReader.items, hb, Nat.min_eq_left hl,
    List.drop_left, List.map_append, List.append_assoc, and_self]

/-! ## `read_until` -/

/-- `BufRead::read_until` over a `Take`: the loop of the standard library. The
result is the count of bytes appended; the other components are the vector and
the reader afterwards. A read error leaves in the vector what was read before
it, and `Interrupted` is retried. -/
def read_until (delim : UInt8) (t : Take) (buf : List UInt8) (read : ℕ) :
    Except Error ℕ × List UInt8 × Take :=
  match _h : t.fill_buf with
  | (.error e, t') =>
    if e.kind = .Interrupted then read_until delim t' buf read else (.error e, buf, t')
  | (.ok available, t') =>
    match available.idxOf? delim with
    | some i => (.ok (read + (i + 1)), buf ++ available.take (i + 1), t'.consume (i + 1))
    | none =>
      if available.length = 0 then (.ok read, buf, t')
      else read_until delim (t'.consume available.length) (buf ++ available)
        (read + available.length)
termination_by t.inner.source.length + t.limit
decreasing_by
  · rcases t.fill_buf_cases with ⟨hf, -⟩ | ⟨_, _, _, hf, -⟩ | ⟨e', t'', hf, -, hl, -, hs⟩
    · rw [hf] at _h; cases _h
    · rw [hf] at _h; cases _h
    · rw [hf] at _h; cases _h; omega
  · rcases t.fill_buf_cases with ⟨hf, -⟩ | ⟨av, more, t'', hf, hne, hle, hl, hb, -, hs⟩ | ⟨_, _, hf, -⟩
    · rw [hf] at _h; cases _h; contradiction
    · rw [hf] at _h; cases _h
      obtain ⟨-, hlim, hsrc⟩ := Take.consume_items hb (hl ▸ hle)
      have hpos : 0 < available.length := List.length_pos_of_ne_nil hne
      rw [hlim, hsrc]
      omega
    · rw [hf] at _h; cases _h

/-- Where the delimiter first occurs. -/
theorem idxOf?_split {delim : UInt8} {bs : List UInt8} {i : ℕ}
    (h : bs.idxOf? delim = some i) :
    ∃ line rest, bs = line ++ delim :: rest ∧ delim ∉ line ∧ line.length = i := by
  induction bs generalizing i with
  | nil => simp at h
  | cons b bs ih =>
      rw [List.idxOf?_cons] at h
      by_cases hb : b = delim
      · subst hb
        simp only [beq_self_eq_true, if_true, Option.some.injEq] at h
        exact ⟨[], bs, rfl, by simp, h⟩
      · rw [if_neg (by simpa using hb)] at h
        obtain ⟨j, hj, rfl⟩ := Option.map_eq_some_iff.mp h
        obtain ⟨line, rest, rfl, hline, hlen⟩ := ih hj
        exact ⟨b :: line, rest, rfl, by simp [hline, Ne.symm hb], by simp [hlen]⟩

theorem read_until_error {delim : UInt8} {t t' : Take} {e : Error} {buf : List UInt8} {read : ℕ}
    (h : t.fill_buf = (.error e, t')) :
    read_until delim t buf read
      = if e.kind = .Interrupted then read_until delim t' buf read else (.error e, buf, t') := by
  rw [read_until]
  split
  · rename_i heq; rw [h] at heq; cases heq; rfl
  · rename_i heq; rw [h] at heq; cases heq

theorem read_until_ok {delim : UInt8} {t t' : Take} {available buf : List UInt8} {read : ℕ}
    (h : t.fill_buf = (.ok available, t')) :
    read_until delim t buf read
      = match available.idxOf? delim with
        | some i => (.ok (read + (i + 1)), buf ++ available.take (i + 1), t'.consume (i + 1))
        | none =>
          if available.length = 0 then (.ok read, buf, t')
          else read_until delim (t'.consume available.length) (buf ++ available)
            (read + available.length) := by
  rw [read_until]
  split
  · rename_i heq; rw [h] at heq; cases heq
  · rename_i heq; rw [h] at heq; cases heq; rfl

/-- **The loop computes the scan.** Whatever the chunks and the buffer, what
`read_until` appends, the error it stops at and the stream it leaves are
`scan`'s, and the count it returns is the number of bytes appended. -/
theorem read_until_scan (delim : UInt8) (t : Take) (buf : List UInt8) (read : ℕ) :
    ((read_until delim t buf read).1.map fun _ => (read_until delim t buf read).2.1,
      (read_until delim t buf read).2.2.inner.items) = scan delim t.limit t.inner.items buf ∧
    ∀ n, (read_until delim t buf read).1 = .ok n →
      n + buf.length = read + (read_until delim t buf read).2.1.length := by
  -- the measure of the loop: reads to come, and bytes the limit still allows
  induction hm : t.inner.source.length + t.limit using Nat.strongRecOn
    generalizing t buf read with
  | ind m ih =>
  rcases t.fill_buf_cases with ⟨hf, hend⟩ | ⟨av, more, t', hf, hne, hle, hlim, hb, hi, hs⟩ |
    ⟨e, t', hf, hl, hlim, hi, hs⟩
  · -- nothing available: the limit is used up, or the stream has ended
    rw [read_until_ok hf]
    have hscan : scan delim t.limit t.inner.items buf = (.ok buf, t.inner.items) := by
      rcases hend with h0 | h0
      · rw [h0, scan]
      · rw [h0]; cases t.limit <;> rw [scan]
    simp only [List.idxOf?_nil, List.length_nil, if_true, hscan]
    refine ⟨rfl, ?_⟩
    rintro n ⟨⟩
    rfl
  · obtain ⟨hitems, hlim', hsrc⟩ := Take.consume_items hb (hlim ▸ hle)
    rw [read_until_ok hf]
    cases hidx : av.idxOf? delim with
    | some i =>
        -- the delimiter is among the bytes available
        obtain ⟨line, rest, rfl, hline, rfl⟩ := idxOf?_split hidx
        have htake : (line ++ delim :: rest).take (line.length + 1) = line ++ [delim] := by
          rw [List.take_append, List.take_of_length_le (by omega)]; simp
        have hlen : line.length < t.limit := by
          simp only [List.length_append, List.length_cons] at hle; omega
        have hb' : t'.inner.buffer = (line ++ [delim]) ++ (rest ++ more) := by
          rw [hb]; simp
        obtain ⟨hit, -, -⟩ := Take.consume_items hb'
          (by simp only [List.length_append, List.length_singleton]; omega)
        simp only [List.length_append, List.length_singleton] at hit
        rw [← hi, hit, scan_line delim line hline _ _ _ hlen]
        simp only [htake, ← List.append_assoc]
        refine ⟨rfl, ?_⟩
        rintro n ⟨⟩
        simp only [List.length_append, List.length_singleton]
        omega
    | none =>
        -- a block without the delimiter: consumed whole, and the loop goes on
        have hnot : delim ∉ av := by simpa using hidx
        have hpos : 0 < av.length := List.length_pos_of_ne_nil hne
        simp only [if_neg (Nat.pos_iff_ne_zero.mp hpos)]
        obtain ⟨ih1, ih2⟩ := ih _ (by rw [hlim', hsrc]; omega) (t'.consume av.length)
          (buf ++ av) (read + av.length) rfl
        rw [ih1, ← hi, hitems, scan_block delim av hnot _ _ _ hle, hlim', hlim]
        refine ⟨rfl, fun n hn => ?_⟩
        have := ih2 n hn
        simp only [List.length_append] at this
        omega
  · obtain ⟨k, hk⟩ := Nat.exists_eq_succ_of_ne_zero hl
    rw [read_until_error hf, hi, hk, scan]
    split
    · -- interrupted: both sides drop the error and go on
      obtain ⟨ih1, ih2⟩ := ih _ (by omega) t' buf read rfl
      rw [hlim, hk] at ih1
      exact ⟨ih1, ih2⟩
    · exact ⟨rfl, fun n hn => by cases hn⟩

end StdIo
