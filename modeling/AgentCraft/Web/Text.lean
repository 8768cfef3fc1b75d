import Mathlib.Algebra.BigOperators.Group.List.Basic
import Mathlib.Algebra.Order.Ring.Nat
import Mathlib.Data.List.DropRight

/-!
# Texts of the browser

`TextDecoder` decodes UTF-8 one chunk after the other, and keeps a sequence that is not complete for the
next chunk. Texts are measured in UTF-16 code units.
-/

namespace AgentCraft.Web

/-- U+FFFD, for a sequence that is ill-formed. -/
def replacement : Char := Char.ofNat 0xFFFD

def byteOrderMark : Char := Char.ofNat 0xFEFF

/-- `TextDecoder`: the sequence that has begun, the bytes that it lacks, what the next of them may be, and
whether something has been decoded already. -/
structure TextDecoder where
  codePoint : ℕ := 0
  missing : ℕ := 0
  lower : ℕ := 0x80
  upper : ℕ := 0xBF
  begun : Bool := false
deriving DecidableEq, Repr

namespace TextDecoder

/-- A byte that begins a sequence. -/
def first (d : TextDecoder) (b : ℕ) : TextDecoder × List Char :=
  if b ≤ 0x7F then (d, [Char.ofNat b])
  else if 0xC2 ≤ b ∧ b ≤ 0xDF then
    ({ d with codePoint := b % 32, missing := 1, lower := 0x80, upper := 0xBF }, [])
  else if 0xE0 ≤ b ∧ b ≤ 0xEF then
    ({ d with
      codePoint := b % 16
      missing := 2
      lower := if b = 0xE0 then 0xA0 else 0x80
      upper := if b = 0xED then 0x9F else 0xBF }, [])
  else if 0xF0 ≤ b ∧ b ≤ 0xF4 then
    ({ d with
      codePoint := b % 8
      missing := 3
      lower := if b = 0xF0 then 0x90 else 0x80
      upper := if b = 0xF4 then 0x8F else 0xBF }, [])
  else (d, [replacement])

/-- The next byte; one that does not go on with a sequence begins another. -/
def next (d : TextDecoder) (b : ℕ) : TextDecoder × List Char :=
  if d.missing = 0 then d.first b
  else if d.lower ≤ b ∧ b ≤ d.upper then
    let codePoint := d.codePoint * 64 + b % 64
    if d.missing = 1 then ({ d with missing := 0 }, [Char.ofNat codePoint])
    else ({ d with codePoint := codePoint, missing := d.missing - 1, lower := 0x80, upper := 0xBF }, [])
  else
    let p := { d with missing := 0 }.first b
    (p.1, replacement :: p.2)

/-- A byte order mark at the beginning is dropped. -/
def emit (d : TextDecoder) (s : List Char) : TextDecoder × List Char :=
  if d.begun then (d, s)
  else match s with
    | [] => (d, [])
    | c :: s => ({ d with begun := true }, if c = byteOrderMark then s else c :: s)

/-- `decode(value, { stream: true })`. -/
def decode (d : TextDecoder) : List UInt8 → TextDecoder × List Char
  | [] => (d, [])
  | b :: bs =>
    let p := (d.next b.toNat).1.emit (d.next b.toNat).2
    ((p.1.decode bs).1, p.2 ++ (p.1.decode bs).2)

/-- A stream is decoded alike in pieces. -/
theorem decode_append (d : TextDecoder) (bs cs : List UInt8) :
    d.decode (bs ++ cs) =
      (((d.decode bs).1.decode cs).1, (d.decode bs).2 ++ ((d.decode bs).1.decode cs).2) := by
  induction bs generalizing d with
  | nil => rfl
  | cons b bs ih =>
    simp only [List.cons_append, decode]
    rw [ih, List.append_assoc]

/-- The texts of the chunks. -/
def decodeChunks (d : TextDecoder) : List (List UInt8) → List (List Char)
  | [] => []
  | c :: cs => (d.decode c).2 :: (d.decode c).1.decodeChunks cs

/-- The texts of the chunks are the text of the stream. -/
theorem flatten_decodeChunks (d : TextDecoder) (chunks : List (List UInt8)) :
    (d.decodeChunks chunks).flatten = (d.decode chunks.flatten).2 := by
  induction chunks generalizing d with
  | nil => rfl
  | cons c cs ih =>
    rw [decodeChunks, List.flatten_cons, List.flatten_cons, ih, decode_append]

theorem not_mark : ∀ n ≤ 0x7F, Char.ofNat n ≠ byteOrderMark := by decide +kernel

/-- Bytes of ASCII stand for themselves. -/
theorem decode_ascii {d : TextDecoder} (hd : d.missing = 0) {bs : List UInt8}
    (h : ∀ b ∈ bs, b.toNat ≤ 0x7F) :
    (d.decode bs).2 = bs.map (fun b => Char.ofNat b.toNat) ∧ (d.decode bs).1.missing = 0 := by
  induction bs generalizing d with
  | nil => exact ⟨rfl, hd⟩
  | cons b bs ih =>
    have hb : b.toNat ≤ 0x7F := h b List.mem_cons_self
    have hnext : d.next b.toNat = (d, [Char.ofNat b.toNat]) := by
      rw [next, if_pos hd, first, if_pos hb]
    have hmark : Char.ofNat b.toNat ≠ byteOrderMark := not_mark b.toNat hb
    obtain ⟨d', hemit, hd'⟩ : ∃ d', d.emit [Char.ofNat b.toNat] = (d', [Char.ofNat b.toNat]) ∧
        d'.missing = 0 := by
      unfold emit
      split
      · exact ⟨d, rfl, hd⟩
      · exact ⟨{ d with begun := true }, by simp only [if_neg hmark], hd⟩
    obtain ⟨htext, hmissing⟩ := ih hd' fun c hc => h c (List.mem_cons_of_mem _ hc)
    rw [decode, hnext, hemit, htext]
    exact ⟨rfl, hmissing⟩

example : ({} : TextDecoder).decodeChunks [[0xEF, 0xBB], [0xBF, 0x61, 0xE2, 0x82], [0xAC, 0xE2, 0x62]] =
    [[], ['a'], ['€', replacement, 'b']] := by
  decide +kernel

end TextDecoder

/-- The code units of a character. -/
def utf16Size (c : Char) : ℕ := if c.toNat < 0x10000 then 1 else 2

/-- `text.length`. -/
def utf16Length (s : List Char) : ℕ := (s.map utf16Size).sum

theorem utf16Length_append (s t : List Char) :
    utf16Length (s ++ t) = utf16Length s + utf16Length t := by
  rw [utf16Length, List.map_append, List.sum_append]
  rfl

/-- The characters that `trim` takes off. -/
def isTrimmed (c : Char) : Bool :=
  (9 ≤ c.toNat && c.toNat ≤ 13) || (0x2000 ≤ c.toNat && c.toNat ≤ 0x200A) ||
    [0x20, 0xA0, 0x1680, 0x2028, 0x2029, 0x202F, 0x205F, 0x3000, 0xFEFF].contains c.toNat

/-- `text.trim()`. -/
def trim (s : List Char) : List Char := (s.dropWhile isTrimmed).rdropWhile isTrimmed

end AgentCraft.Web
