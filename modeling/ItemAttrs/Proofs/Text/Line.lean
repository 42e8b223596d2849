import ItemAttrs.Proofs.Text.Reading

/-!
# Texts on one line

A text stands on one line if there is no newline in it. Lines with newlines between them can be
told apart again (`splitOn_newline`). Numbers, decimals and spans stand on one line, and so does
quoted text, whatever is quoted (`Text.Quoting.oneLine_quote`), since a newline has an escape.
-/

namespace ItemAttrs

/-- **The text stands on one line.** -/
def OneLine (cs : List Char) : Prop := '\n' ∉ cs

instance (cs : List Char) : Decidable (OneLine cs) := inferInstanceAs (Decidable (¬_))

@[simp] theorem oneLine_nil : OneLine [] := List.not_mem_nil

@[simp] theorem oneLine_cons {c : Char} {cs : List Char} :
    OneLine (c :: cs) ↔ c ≠ '\n' ∧ OneLine cs := by
  unfold OneLine
  rw [List.mem_cons, not_or, ne_comm]

@[simp] theorem oneLine_append {cs ds : List Char} :
    OneLine (cs ++ ds) ↔ OneLine cs ∧ OneLine ds := by
  unfold OneLine
  rw [List.mem_append, not_or]

theorem oneLine_of_ne {cs : List Char} (h : ∀ c ∈ cs, c ≠ '\n') : OneLine cs :=
  fun hmem => h '\n' hmem rfl

/-- **Lines are told apart** by the newlines between them. -/
theorem splitOn_newline {lines : List (List Char)} (hne : lines ≠ [])
    (h : ∀ line ∈ lines, OneLine line) : (['\n'].intercalate lines).splitOn '\n' = lines :=
  List.splitOn_intercalate '\n' h hne

/-! ### Numbers -/

theorem oneLine_toDigits {b : Nat} (hb : 1 < b) (hb' : b ≤ 16) (n : Nat) :
    OneLine (Nat.toDigits b n) :=
  oneLine_of_ne fun _ => Text.mem_toDigits_ne hb hb' (by decide)

theorem Span.oneLine_toText (s : Span) : OneLine s.toText.toList := by
  have hdigits : ∀ n, OneLine (Nat.toDigits 10 n) := oneLine_toDigits (by decide) (by decide)
  rw [s.toList_toText, oneLine_append, oneLine_append]
  exact ⟨hdigits _, by decide, hdigits _⟩

namespace Decimal.Notation

variable {f : Notation}

theorem oneLine_replicate (n : Nat) : OneLine (List.replicate n '0') := by
  apply oneLine_of_ne
  intro c hc
  rw [List.eq_of_mem_replicate hc]
  decide

theorem oneLine_positional {digits : List Char} (h : OneLine digits) (point : Int) :
    OneLine (positional digits point) := by
  have htake : ∀ n, OneLine (digits.take n) := fun n hmem => h (List.mem_of_mem_take hmem)
  have hdrop : ∀ n, OneLine (digits.drop n) := fun n hmem => h (List.mem_of_mem_drop hmem)
  unfold positional
  split
  · split_ifs
    · simp [h]
    · simp [h, oneLine_replicate]
    · simp [htake, hdrop]
  · simp [h, oneLine_replicate]

theorem oneLine_scientific {digits : List Char} (h : OneLine digits) (point : Int) :
    OneLine (scientific digits point) := by
  have hexponent : ∀ i : Int, OneLine i.repr.toList := by
    intro i
    cases i with
    | ofNat n =>
      show OneLine n.repr.toList
      rw [Nat.toList_repr]
      exact oneLine_toDigits (by decide) (by decide) n
    | negSucc n =>
      show OneLine ("-" ++ n.succ.repr).toList
      rw [String.toList_append, Nat.toList_repr, oneLine_append]
      exact ⟨by decide, oneLine_toDigits (by decide) (by decide) _⟩
  unfold scientific
  match digits, h with
  | [], _ => simp [hexponent]
  | [d], h => simpa [hexponent] using h
  | d :: d' :: rest, h => simpa [hexponent] using h

/-- **A decimal stands on one line,** if the words for infinity and for no number do. -/
theorem oneLine_binary64 (hinfinity : OneLine f.infinity.toList)
    (hnumber : OneLine f.notANumber.toList) (x : Binary64) : OneLine (f.binary64 x) := by
  have hsign : ∀ negative : Bool, OneLine (if negative then ['-'] else []) := by decide
  have hscaled : ∀ d, OneLine (f.scaled d) := by
    intro d
    have hdigits : OneLine (Nat.toDigits 10 d.digits) :=
      oneLine_toDigits (by decide) (by decide) d.digits
    show OneLine (if _ then positional _ _ else scientific _ _)
    split_ifs
    · exact oneLine_positional hdigits _
    · exact oneLine_scientific hdigits _
  cases x with
  | finite negative m =>
    apply oneLine_append.mpr
    refine ⟨hsign negative, ?_⟩
    unfold magnitude
    split_ifs
    · decide
    · exact hscaled _
  | infinite negative => exact oneLine_append.mpr ⟨hsign negative, hinfinity⟩
  | notANumber => exact hnumber

end Decimal.Notation

/-! ### Quoted text -/

namespace Text.Quoting

variable {q : Quoting}

theorem oneLine_escapeChar (q : Quoting) (c : Char) : OneLine (q.escapeChar c) := by
  unfold escapeChar
  split_ifs with hnull htab hreturn hline hself hhidden
  · decide
  · decide
  · decide
  · decide
  · -- the character itself stands behind the backslash, but it is no newline
    simpa using hline
  · unfold byNumber
    simpa using oneLine_toDigits (by decide) (by decide) c.toNat
  · simpa using hline

/-- **Quoted text stands on one line,** whatever is quoted. -/
theorem oneLine_quote (hq : q.Marks) (cs : List Char) : OneLine (q.quote cs) := by
  have hdelimiter : q.delimiter ≠ '\n' := by
    rcases hq with hq | hq <;> rw [hq] <;> decide
  have hescape : OneLine (q.escape cs) := by
    induction cs with
    | nil => exact oneLine_nil
    | cons c cs ih =>
      rw [escape_cons, oneLine_append]
      exact ⟨q.oneLine_escapeChar c, ih⟩
  unfold quote
  simp [hdelimiter, hescape]

end Text.Quoting

end ItemAttrs
