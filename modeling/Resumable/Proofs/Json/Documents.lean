import Mathlib.Data.List.Basic
import Resumable.Json.Printer
import Resumable.Json.Reader

/-!
# Documents and their texts

A document whose numbers are numbers and whose texts have characters is read back from the text that
is printed for it. The text is cut into the tokens that the document is made of, whatever stands
behind it, as long as that does not go on a number; and the tokens are read as the document.
-/

namespace Resumable.Json

-- ---------------------------------------------------------------------------
-- Texts
-- ---------------------------------------------------------------------------

def piece (c : Char) : Piece := if c.toNat < 32 then .unit c.toNat else .char c

theorem hexUnit?_hexDigit : ∀ n < 32,
    hexUnit? '0' '0' (hexDigit (n / 16)) (hexDigit n) = some n := by
  decide +kernel

theorem pieces_cons {c : Char} (hquote : c ≠ '\x22') (hslash : c ≠ '\x5c') (hc : ¬ c.toNat < 32)
    (rest : List Char) :
    pieces (c :: rest) = (pieces rest).map fun (ps, tail) => (.char c :: ps, tail) := by
  rw [pieces, if_neg hc]
  · cases pieces rest <;> rfl
  · exact hquote
  · exact fun _ _ _ _ _ h => absurd h hslash
  · exact fun _ _ h => absurd h hslash

theorem pieces_escapeChar (c : Char) (rest : List Char) :
    pieces (escapeChar c ++ rest) =
      (pieces rest).map fun (ps, tail) => (piece c :: ps, tail) := by
  unfold escapeChar
  split
  · next h =>
    subst h
    cases h : pieces rest <;> simp [pieces, escaped?, h, piece]
  · next hquote =>
    split
    · next h =>
      subst h
      cases h : pieces rest <;> simp [pieces, escaped?, h, piece]
    · next hslash =>
      split
      · next hc =>
        have hunit := hexUnit?_hexDigit c.toNat hc
        cases h : pieces rest <;> simp [pieces, hunit, h, piece, hc]
      · next hc =>
        rw [piece, if_neg hc]
        exact pieces_cons hquote hslash hc rest

theorem pieces_escaped (text rest : List Char) :
    pieces (text.flatMap escapeChar ++ '\x22' :: rest) = some (text.map piece, rest) := by
  induction text with
  | nil => simp [pieces]
  | cons c text ih => simp [List.append_assoc, pieces_escapeChar, ih]

theorem characters_piece (text : List Char) : characters (text.map piece) = some text := by
  induction text with
  | nil => rfl
  | cons c text ih =>
    rw [List.map_cons, piece]
    split
    · next hc =>
      have hhigh : isHigh c.toNat = false := by
        unfold isHigh
        grind
      have hlow : isLow c.toNat = false := by
        unfold isLow
        grind
      rw [characters.eq_def]
      simp [hhigh, hlow, ih]
    · simp [characters, ih]

theorem content_piece (s : String) : content (s.toList.map piece) = some s := by
  simp [content, characters_piece]

theorem token?_printText (s : String) (rest : List Char) :
    token? (printText s ++ rest) = some (.text (some s), rest) := by
  have hpieces : pieces (s.toList.flatMap escapeChar ++ ['\x22'] ++ rest) =
      some (s.toList.map piece, rest) := by
    rw [List.append_assoc]
    exact pieces_escaped s.toList rest
  change (pieces (s.toList.flatMap escapeChar ++ ['\x22'] ++ rest)).map _ = _
  rw [hpieces, ← content_piece s]
  rfl

-- ---------------------------------------------------------------------------
-- Numbers
-- ---------------------------------------------------------------------------

variable {cs ds tail rest : List Char}

/-- No number goes on with these characters. -/
def Ends (rest : List Char) : Prop :=
  ∀ c ∈ rest.head?, c.isDigit = false ∧ c ≠ '.' ∧ c ≠ 'e' ∧ c ≠ 'E'

namespace Ends

theorem nil : Ends [] := by simp [Ends]

theorem cons {c : Char} (h : c.isDigit = false ∧ c ≠ '.' ∧ c ≠ 'e' ∧ c ≠ 'E')
    (rest : List Char) : Ends (c :: rest) := by simpa [Ends] using h

theorem takeWhile_eq (h : Ends rest) : rest.takeWhile (·.isDigit) = [] := by
  cases rest with
  | nil => rfl
  | cons c rest => simp [(h c rfl).1]

theorem dropWhile_eq (h : Ends rest) : rest.dropWhile (·.isDigit) = rest := by
  cases rest with
  | nil => rfl
  | cons c rest => simp [(h c rfl).1]

theorem fraction?_eq (h : Ends rest) : fraction? rest = some ([], rest) := by
  cases rest with
  | nil => rfl
  | cons c rest =>
    rw [fraction?]
    exact fun more hc => (h c rfl).2.1 (List.cons.inj hc).1

theorem exponent?_eq (h : Ends rest) : exponent? rest = some ([], rest) := by
  cases rest with
  | nil => rfl
  | cons c rest => simp [exponent?, (h c rfl).2.2]

end Ends

theorem digits?_append (h : digits? cs = some (ds, tail)) (hrest : Ends rest) :
    digits? (cs ++ rest) = some (ds, tail ++ rest) := by
  have htake : (cs ++ rest).takeWhile (·.isDigit) = cs.takeWhile (·.isDigit) := by
    rw [List.takeWhile_append, hrest.takeWhile_eq]
    split
    · next hall => rw [(List.takeWhile_prefix _).eq_of_length hall, List.append_nil]
    · rfl
  have hdrop : (cs ++ rest).dropWhile (·.isDigit) = cs.dropWhile (·.isDigit) ++ rest := by
    rw [List.dropWhile_append, hrest.dropWhile_eq]
    split
    · next hall => rw [List.isEmpty_iff.mp hall, List.nil_append]
    · rfl
  unfold digits? at h ⊢
  rw [htake, hdrop]
  split at h
  · cases h
  · cases h
    rfl

theorem whole?_append (h : whole? cs = some (ds, tail)) (hrest : Ends rest) :
    whole? (cs ++ rest) = some (ds, tail ++ rest) := by
  unfold whole? at h
  split at h
  · cases h
    rfl
  · next hzero =>
    rw [← digits?_append h hrest]
    cases cs with
    | nil => cases h
    | cons c cs =>
      rw [List.cons_append, whole?]
      exact fun more hc => hzero cs (by rw [(List.cons.inj hc).1])

theorem fraction?_append (h : fraction? cs = some (ds, tail)) (hrest : Ends rest) :
    fraction? (cs ++ rest) = some (ds, tail ++ rest) := by
  unfold fraction? at h
  split at h
  · obtain ⟨⟨ds, tail⟩, hdigits, h⟩ := Option.map_eq_some_iff.mp h
    cases h
    simp [fraction?, digits?_append hdigits hrest]
  · next hpoint =>
    cases h
    cases cs with
    | nil => exact hrest.fraction?_eq
    | cons c cs =>
      rw [List.cons_append, fraction?]
      exact fun more hc => hpoint cs (by rw [(List.cons.inj hc).1])

theorem exponent?_append (h : exponent? cs = some (ds, tail)) (hrest : Ends rest) :
    exponent? (cs ++ rest) = some (ds, tail ++ rest) := by
  cases cs with
  | nil =>
    cases h
    exact hrest.exponent?_eq
  | cons c cs =>
    by_cases hc : c = 'e' ∨ c = 'E'
    · cases cs with
      | nil => simp [exponent?, hc] at h
      | cons s cs =>
        by_cases hs : s = '+' ∨ s = '-'
        · simp only [exponent?, hc, hs, if_true] at h
          obtain ⟨⟨ds, tail⟩, hdigits, h⟩ := Option.map_eq_some_iff.mp h
          cases h
          simp [exponent?, hc, hs, digits?_append hdigits hrest]
        · simp only [exponent?, hc, hs, if_true, if_false] at h
          obtain ⟨⟨ds, tail⟩, hdigits, h⟩ := Option.map_eq_some_iff.mp h
          cases h
          have happend := digits?_append hdigits hrest
          simp only [List.cons_append] at happend
          simp [exponent?, hc, hs, happend]
    · simp only [exponent?, hc, if_false] at h
      cases h
      simp [exponent?, hc]

def sign : List Char → List Char × List Char
  | '-' :: rest => (['-'], rest)
  | cs => ([], cs)

theorem sign_append (h : cs ≠ []) : sign (cs ++ rest) = ((sign cs).1, (sign cs).2 ++ rest) := by
  obtain ⟨c, cs, rfl⟩ := List.exists_cons_of_ne_nil h
  by_cases hc : c = '-'
  · subst hc
    rfl
  · rw [List.cons_append, sign, sign]
    · rfl
    · exact fun _ h => hc (List.cons.inj h).1
    · exact fun _ h => hc (List.cons.inj h).1

theorem number?_eq (cs : List Char) : number? cs = do
    let (whole, tail) ← whole? (sign cs).2
    let (fraction, tail) ← fraction? tail
    let (exponent, tail) ← exponent? tail
    return ((sign cs).1 ++ whole ++ fraction ++ exponent, tail) := rfl

theorem number?_append (h : number? cs = some (ds, tail)) (hrest : Ends rest) :
    number? (cs ++ rest) = some (ds, tail ++ rest) := by
  have hne : cs ≠ [] := by
    rintro rfl
    cases h
  rw [number?_eq] at h ⊢
  simp only [Option.bind_eq_bind, Option.bind_eq_some_iff, Prod.exists] at h
  obtain ⟨whole, cs₁, hwhole, fraction, cs₂, hfraction, exponent, cs₃, hexponent, h⟩ := h
  cases h
  have hw := whole?_append hwhole hrest
  have hf := fraction?_append hfraction hrest
  have he := exponent?_append hexponent hrest
  simp [sign_append hne, hw, hf, he]

-- ---------------------------------------------------------------------------
-- Tokens
-- ---------------------------------------------------------------------------

/-- A text is cut into the tokens. -/
structure Cuts (cs : List Char) (ts : List Token) : Prop where
  short : ts.length ≤ cs.length
  tokens : ∀ n, ts.length ≤ n → tokens n cs = some ts

namespace Cuts

variable {ts : List Token}

theorem nil : Cuts [] [] := ⟨Nat.le_refl _, fun n _ => by cases n <;> rfl⟩

theorem cons (h : Cuts tail ts) {c : Char} (hc : isBlank c = false)
    (ht : token? (c :: cs) = some (t, tail)) (hlength : tail.length ≤ cs.length) :
    Cuts (c :: cs) (t :: ts) where
  short := Nat.succ_le_succ (Nat.le_trans h.short hlength)
  tokens n hn := by
    obtain ⟨n, rfl⟩ := Nat.exists_eq_succ_of_ne_zero (Nat.ne_zero_of_lt hn)
    unfold Json.tokens
    simp [hc, ht, h.tokens n (Nat.le_of_succ_le_succ hn)]

theorem mark (h : Cuts cs ts) {c : Char} (hc : isBlank c = false)
    (ht : token? (c :: cs) = some (t, cs)) : Cuts (c :: cs) (t :: ts) :=
  h.cons hc ht (Nat.le_refl _)

theorem text (h : Cuts cs ts) (s : String) :
    Cuts (printText s ++ cs) (.text (some s) :: ts) :=
  h.cons (c := '\x22') rfl (token?_printText s cs) (by simp; omega)

end Cuts

theorem digit_or_minus (h : number? (c :: cs) = some (ds, tail)) : c.isDigit = true ∨ c = '-' := by
  refine Classical.or_iff_not_imp_right.mpr fun hminus => ?_
  have hsign : sign (c :: cs) = ([], c :: cs) := by
    rw [sign]
    exact fun _ h => hminus (List.cons.inj h).1
  rw [number?_eq, hsign] at h
  simp only [Option.bind_eq_bind, Option.bind_eq_some_iff, Prod.exists] at h
  obtain ⟨whole, cs₁, hwhole, -⟩ := h
  unfold whole? at hwhole
  split at hwhole
  · next h =>
    rw [(List.cons.inj h).1]
    rfl
  · refine Classical.byContradiction fun hc => ?_
    simp [digits?, hc] at hwhole

/-- Blanks and the characters that other tokens start with. -/
def others : List Char :=
  [' ', '\n', '\t', '\r', '[', ']', '\x7b', '\x7d', ',', ':', 'n', 't', 'f', '\x22']

theorem token?_number (h : number? (c :: cs) = some (ds, tail)) :
    isBlank c = false ∧ token? (c :: cs) = some (.number (String.ofList ds), tail) := by
  have hothers : ∀ d ∈ others, d.isDigit = false ∧ d ≠ '-' := by simp [others]
  have hc : ∀ d ∈ others, c ≠ d := by
    rintro d hd rfl
    rcases digit_or_minus h with hdigit | hminus
    · simp [(hothers c hd).1] at hdigit
    · exact (hothers c hd).2 hminus
  constructor
  · simp [isBlank, hc ' ' (by decide), hc '\n' (by decide), hc '\t' (by decide),
      hc '\r' (by decide)]
  · rw [token?, h]
    · rfl
    · exact List.cons_ne_nil c cs
    all_goals
      intro rest hrest
      obtain ⟨rfl, -⟩ := List.cons.inj hrest
      exact hc _ (by decide) rfl

-- ---------------------------------------------------------------------------
-- Documents
-- ---------------------------------------------------------------------------

variable {j : Json} {js : List Json} {fs : List (Content × Json)} {ts : List Token}

/-- The numbers of a document are numbers, and its texts have characters. -/
inductive Printable : Json → Prop
  | null : Printable .null
  | bool (b : Bool) : Printable (.bool b)
  | number : number? written.toList = some (written.toList, []) → Printable (.number written)
  | text (s : String) : Printable (.text (some s))
  | array {js : List Json} : (∀ j ∈ js, Printable j) → Printable (.array js)
  | object {fs : List (Content × Json)} : (∀ f ∈ fs, f.1.isSome) → (∀ f ∈ fs, Printable f.2) →
    Printable (.object fs)

mutual

def tokensOf : Json → List Token
  | .null => [.null]
  | .bool b => [.bool b]
  | .number written => [.number written]
  | .text content => [.text content]
  | .array [] => [.openArray, .closeArray]
  | .array (item :: rest) => .openArray :: item.tokensOf ++ itemTokens rest
  | .object [] => [.openObject, .closeObject]
  | .object ((key, value) :: rest) =>
    .openObject :: .text key :: .colon :: value.tokensOf ++ fieldTokens rest

def itemTokens : List Json → List Token
  | [] => [.closeArray]
  | item :: rest => .comma :: item.tokensOf ++ itemTokens rest

def fieldTokens : List (Content × Json) → List Token
  | [] => [.closeObject]
  | (key, value) :: rest => .comma :: .text key :: .colon :: value.tokensOf ++ fieldTokens rest

end

-- ---------------------------------------------------------------------------
-- From characters to tokens
-- ---------------------------------------------------------------------------

/-- The text of a document is cut into its tokens in front of what ends a number. -/
def CutsOff (j : Json) : Prop :=
  ∀ rest ts, Ends rest → Cuts rest ts → Cuts (j.print ++ rest) (j.tokensOf ++ ts)

theorem CutsOff.field (h : CutsOff j) (s : String) (hrest : Ends rest) (hcuts : Cuts rest ts) :
    Cuts (printText s ++ (':' :: (j.print ++ rest)))
      (.text (some s) :: .colon :: (j.tokensOf ++ ts)) :=
  ((h rest ts hrest hcuts).mark (c := ':') rfl rfl).text s

theorem ends_printItems (js : List Json) (rest : List Char) : Ends (printItems js ++ rest) := by
  cases js <;> exact .cons (by decide) _

theorem ends_printFields (fs : List (Content × Json)) (rest : List Char) :
    Ends (printFields fs ++ rest) := by
  cases fs <;> exact .cons (by decide) _

theorem cuts_printItems (h : ∀ j ∈ js, CutsOff j) (hrest : Cuts rest ts) :
    Cuts (printItems js ++ rest) (itemTokens js ++ ts) := by
  induction js with
  | nil => exact hrest.mark rfl rfl
  | cons item js ih =>
    obtain ⟨hitem, hitems⟩ := List.forall_mem_cons.mp h
    have hcuts := hitem _ _ (ends_printItems js rest) (ih hitems)
    simp only [printItems, itemTokens, List.cons_append, List.append_assoc]
    exact hcuts.mark rfl rfl

theorem cuts_printFields (hkeys : ∀ f ∈ fs, f.1.isSome) (h : ∀ f ∈ fs, CutsOff f.2)
    (hrest : Cuts rest ts) : Cuts (printFields fs ++ rest) (fieldTokens fs ++ ts) := by
  induction fs with
  | nil => exact hrest.mark rfl rfl
  | cons f fs ih =>
    obtain ⟨key, value⟩ := f
    obtain ⟨hkey, hkeys'⟩ := List.forall_mem_cons.mp hkeys
    obtain ⟨s, rfl⟩ := Option.isSome_iff_exists.mp hkey
    obtain ⟨hfield, hfields⟩ := List.forall_mem_cons.mp h
    have hcuts := hfield.field s (ends_printFields fs rest) (ih hkeys' hfields)
    simp only [printFields, fieldTokens, printContent, Option.getD_some, List.cons_append,
      List.append_assoc]
    exact hcuts.mark rfl rfl

theorem Printable.cutsOff (h : Printable j) : CutsOff j := by
  induction h with
  | null => exact fun rest ts _ hcuts => hcuts.cons rfl rfl (by simp; omega)
  | bool b =>
    intro rest ts _ hcuts
    cases b <;> exact hcuts.cons rfl rfl (by simp; omega)
  | @number written h =>
    intro rest ts hrest hcuts
    have hnumber := number?_append h hrest
    change Cuts (written.toList ++ rest) (.number written :: ts)
    cases hchars : written.toList with
    | nil =>
      rw [hchars] at h
      cases h
    | cons c cs =>
      rw [hchars, List.nil_append, List.cons_append, ← hchars] at hnumber
      obtain ⟨hc, ht⟩ := token?_number hnumber
      rw [String.ofList_toList] at ht
      exact hcuts.cons hc ht (by simp)
  | text s => exact fun rest ts _ hcuts => hcuts.text s
  | @array js _ ih =>
    intro rest ts hrest hcuts
    cases js with
    | nil => exact (hcuts.mark (c := ']') rfl rfl).mark (c := '[') rfl rfl
    | cons item js =>
      obtain ⟨hitem, hitems⟩ := List.forall_mem_cons.mp ih
      have hitems := hitem _ _ (ends_printItems js rest) (cuts_printItems hitems hcuts)
      change Cuts ('[' :: (item.print ++ printItems js ++ rest))
        (.openArray :: (item.tokensOf ++ itemTokens js ++ ts))
      rw [List.append_assoc, List.append_assoc]
      exact hitems.mark rfl rfl
  | @object fs hkeys _ ih =>
    intro rest ts hrest hcuts
    rcases fs with _ | ⟨⟨key, value⟩, fs⟩
    · exact (hcuts.mark (c := '\x7d') rfl rfl).mark (c := '\x7b') rfl rfl
    · obtain ⟨hkey, hkeys'⟩ := List.forall_mem_cons.mp hkeys
      obtain ⟨s, rfl⟩ := Option.isSome_iff_exists.mp hkey
      obtain ⟨hfield, hfields⟩ := List.forall_mem_cons.mp ih
      have hfields := hfield.field s (ends_printFields fs rest)
        (cuts_printFields hkeys' hfields hcuts)
      change Cuts ('\x7b' :: (printText s ++ ':' :: value.print ++ printFields fs ++ rest))
        (.openObject :: .text (some s) :: .colon :: (value.tokensOf ++ fieldTokens fs ++ ts))
      rw [List.append_assoc, List.append_assoc, List.append_assoc]
      exact hfields.mark rfl rfl

-- ---------------------------------------------------------------------------
-- From tokens to documents
-- ---------------------------------------------------------------------------

/-- The tokens of a document are read as the document, whatever follows them. -/
def ReadsOff (j : Json) : Prop :=
  ∀ n ts, j.tokensOf.length ≤ n → document n (j.tokensOf ++ ts) = some (j, ts)

theorem ReadsOff.of_succ (h : ∀ n ts, j.tokensOf.length ≤ n + 1 →
    document (n + 1) (j.tokensOf ++ ts) = some (j, ts)) : ReadsOff j := by
  intro n ts hn
  cases n with
  | zero => rcases j with _ | _ | _ | _ | (_ | _) | (_ | _) <;> cases hn
  | succ n => exact h n ts hn

theorem exists_tokensOf (j : Json) : ∃ t ts, j.tokensOf = t :: ts ∧ t ≠ .closeArray := by
  rcases j with _ | _ | _ | _ | js | fs
  · exact ⟨_, _, rfl, by simp⟩
  · exact ⟨_, _, rfl, by simp⟩
  · exact ⟨_, _, rfl, by simp⟩
  · exact ⟨_, _, rfl, by simp⟩
  · cases js <;> exact ⟨_, _, rfl, by simp⟩
  · rcases fs with _ | ⟨⟨key, value⟩, fs⟩ <;> exact ⟨_, _, rfl, by simp⟩

theorem items_tokens (h : ReadsOff j) (hjs : ∀ j ∈ js, ReadsOff j) {n : Nat}
    (hn : (j.tokensOf ++ itemTokens js).length ≤ n) (ts : List Token) :
    items n (j.tokensOf ++ (itemTokens js ++ ts)) = some (j :: js, ts) := by
  induction js generalizing j n with
  | nil =>
    rw [List.length_append] at hn
    obtain ⟨n, rfl⟩ := Nat.exists_eq_succ_of_ne_zero (n := n) (by simp [itemTokens] at hn; omega)
    have hread := h n (itemTokens [] ++ ts) (by simp [itemTokens] at hn; omega)
    simp only [itemTokens, List.cons_append, List.nil_append] at hread ⊢
    simp [items, hread]
  | cons item js ih =>
    rw [List.length_append] at hn
    obtain ⟨n, rfl⟩ := Nat.exists_eq_succ_of_ne_zero (n := n) (by simp [itemTokens] at hn; omega)
    obtain ⟨hitem, hitems⟩ := List.forall_mem_cons.mp hjs
    have hread := h n (itemTokens (item :: js) ++ ts) (by simp [itemTokens] at hn; omega)
    have hrest := ih hitem hitems (n := n) (by simp [itemTokens] at hn ⊢; omega)
    simp only [itemTokens, List.cons_append, List.append_assoc] at hread hrest ⊢
    simp [items, hread, hrest]

theorem fields_tokens (h : ReadsOff j) (hfs : ∀ f ∈ fs, ReadsOff f.2) (key : Content) {n : Nat}
    (hn : (.text key :: .colon :: j.tokensOf ++ fieldTokens fs).length ≤ n) (ts : List Token) :
    fields n (.text key :: .colon :: (j.tokensOf ++ (fieldTokens fs ++ ts))) =
      some ((key, j) :: fs, ts) := by
  induction fs generalizing j n key with
  | nil =>
    obtain ⟨n, rfl⟩ := Nat.exists_eq_succ_of_ne_zero (n := n) (by simp at hn; omega)
    have hread := h n (fieldTokens [] ++ ts) (by simp [fieldTokens] at hn; omega)
    simp only [fieldTokens, List.cons_append, List.nil_append] at hread ⊢
    simp [fields, hread]
  | cons f fs ih =>
    obtain ⟨name, value⟩ := f
    obtain ⟨n, rfl⟩ := Nat.exists_eq_succ_of_ne_zero (n := n) (by simp at hn; omega)
    obtain ⟨hfield, hfields⟩ := List.forall_mem_cons.mp hfs
    have hread := h n (fieldTokens ((name, value) :: fs) ++ ts) (by simp at hn; omega)
    have hrest := ih hfield hfields name (n := n) (by simp [fieldTokens] at hn ⊢; omega)
    simp only [fieldTokens, List.cons_append, List.append_assoc] at hread hrest ⊢
    simp [fields, hread, hrest]

theorem ReadsOff.array (h : ReadsOff j) (hjs : ∀ j ∈ js, ReadsOff j) :
    ReadsOff (.array (j :: js)) := by
  refine .of_succ fun n ts hn => ?_
  have hread := items_tokens h hjs (n := n) (by simp [tokensOf] at hn ⊢; omega) ts
  obtain ⟨t, us, hj, ht⟩ := exists_tokensOf j
  simp only [tokensOf, List.cons_append, List.append_assoc, hj] at hread ⊢
  rw [document]
  · simp [hread]
  · exact fun _ h => ht (List.cons.inj h).1

theorem ReadsOff.object (h : ReadsOff j) (hfs : ∀ f ∈ fs, ReadsOff f.2) (key : Content) :
    ReadsOff (.object ((key, j) :: fs)) := by
  refine .of_succ fun n ts hn => ?_
  have hread := fields_tokens h hfs key (n := n) (by simp [tokensOf] at hn ⊢; omega) ts
  simp only [tokensOf, List.cons_append, List.append_assoc]
  simp [document, hread]

theorem Printable.readsOff (h : Printable j) : ReadsOff j := by
  induction h with
  | null | bool | number | text => exact .of_succ fun _ _ _ => rfl
  | @array js _ ih =>
    cases js with
    | nil => exact .of_succ fun _ _ _ => rfl
    | cons item js =>
      obtain ⟨hitem, hitems⟩ := List.forall_mem_cons.mp ih
      exact hitem.array hitems
  | @object fs _ _ ih =>
    rcases fs with _ | ⟨⟨key, value⟩, fs⟩
    · exact .of_succ fun _ _ _ => rfl
    · obtain ⟨hfield, hfields⟩ := List.forall_mem_cons.mp ih
      exact hfield.object hfields key

theorem Printable.ofText?_eq (h : Printable j) {text : String}
    (htokens : tokens text.toList.length text.toList = some j.tokensOf) :
    ofText? text = some j := by
  have hread := h.readsOff (2 * j.tokensOf.length + 1) [] (by omega)
  rw [List.append_nil] at hread
  simp [ofText?, htokens, hread]

/-- A document is read back from its text. -/
theorem Printable.ofText?_toText (h : Printable j) : ofText? j.toText = some j := by
  have hcuts := h.cutsOff [] [] .nil .nil
  simp only [List.append_nil] at hcuts
  exact h.ofText?_eq (by simpa [toText] using hcuts.tokens _ hcuts.short)

-- ---------------------------------------------------------------------------
-- Natural numbers
-- ---------------------------------------------------------------------------

theorem isDigit_toDigits (n : Nat) : ∀ c ∈ Nat.toDigits 10 n, c.isDigit = true := fun _ hc =>
  Nat.isDigit_of_mem_toDigits (by decide) (by decide) hc

theorem digitChar_ne_zero : ∀ n < 10, 0 < n → n.digitChar ≠ '0' := by decide

theorem head?_toDigits_ne (n : Nat) (hn : 0 < n) : (Nat.toDigits 10 n).head? ≠ some '0' := by
  induction n using Nat.strongRecOn with
  | ind n ih =>
    by_cases hlt : n < 10
    · rw [Nat.toDigits_of_lt_base hlt]
      simpa using digitChar_ne_zero n hlt hn
    · rw [Nat.toDigits_of_base_le (by decide) (by omega)]
      have hhead := ih (n / 10) (by omega) (by omega)
      obtain ⟨c, cs, hc⟩ :=
        List.exists_cons_of_ne_nil (Nat.toDigits_ne_nil (n := n / 10) (b := 10))
      simpa [hc] using hhead

theorem natural?_repr (n : Nat) : natural? n.repr = some n := by
  have hne : (Nat.toDigits 10 n).isEmpty = false := by simp [Nat.toDigits_ne_nil]
  have hdigits : (Nat.toDigits 10 n).all (·.isDigit) = true :=
    List.all_eq_true.mpr (isDigit_toDigits n)
  have hzero :
      ((Nat.toDigits 10 n).length > 1 && (Nat.toDigits 10 n).head? == some '0') = false := by
    cases n with
    | zero => decide
    | succ n => simp [head?_toDigits_ne (n + 1) (Nat.succ_pos n)]
  unfold natural?
  rw [Nat.toList_repr]
  simp only [hne, hdigits, hzero]
  exact congrArg some (Nat.ofDigitChars_toDigits (by decide) (by decide))

theorem digits?_of_forall (hne : cs ≠ []) (h : ∀ c ∈ cs, c.isDigit = true) :
    digits? cs = some (cs, []) := by
  have htake : (cs ++ []).takeWhile Char.isDigit = _ := List.takeWhile_append_of_pos h
  have hdrop : (cs ++ []).dropWhile Char.isDigit = _ := List.dropWhile_append_of_pos h
  simp only [List.append_nil, List.takeWhile_nil, List.dropWhile_nil] at htake hdrop
  unfold digits?
  rw [htake, hdrop]
  cases cs with
  | nil => exact absurd rfl hne
  | cons c cs => rfl

theorem whole?_toDigits (n : Nat) :
    whole? (Nat.toDigits 10 n) = some (Nat.toDigits 10 n, []) := by
  cases n with
  | zero => rfl
  | succ n =>
    rw [whole?]
    · exact digits?_of_forall Nat.toDigits_ne_nil (isDigit_toDigits _)
    · intro rest hrest
      exact head?_toDigits_ne (n + 1) (Nat.succ_pos n) (by rw [hrest]; rfl)

theorem printable_ofNat (n : Nat) : Printable (.ofNat n) := by
  refine .number ?_
  have hsign : sign (Nat.toDigits 10 n) = ([], Nat.toDigits 10 n) := by
    rw [sign]
    intro rest hrest
    have hdigit : '-'.isDigit = true := isDigit_toDigits n '-' (by simp [hrest])
    cases hdigit
  rw [Nat.toList_repr, number?_eq, hsign]
  simp [whole?_toDigits, fraction?, exponent?]

end Resumable.Json
