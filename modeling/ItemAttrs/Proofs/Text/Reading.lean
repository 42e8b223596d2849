import ItemAttrs.Proofs.Text.Quoted

/-!
# Reading written forms

`Tells After w w' P` says what one learns from two written forms: whenever two texts begin with
them, go on in an admissible way and agree, `P` holds, and the texts go on alike. In this form
unambiguity composes: what the parts of a written form tell, the whole form tells
(`Tells.append`, `Tells.prepend`), also if there are any number of parts with commas between them
(`tells_separated`). Most forms end in front of one of a few characters (`Follows`).
-/

namespace ItemAttrs

/-- The text goes on with one of the given characters. -/
def Follows (cs r : List Char) : Prop := ∃ c rest, r = c :: rest ∧ c ∈ cs

/-- **What two written forms tell,** if each may be followed by texts of a certain kind. -/
def Tells (After : List Char → Prop) (w w' : List Char) (P : Prop) : Prop :=
  ∀ r r', After r → After r' → w ++ r = w' ++ r' → P ∧ r = r'

section Follows

variable {cs r : List Char}

theorem follows_cons {c : Char} (hc : c ∈ cs) (r : List Char) : Follows cs (c :: r) :=
  ⟨c, r, rfl, hc⟩

/-- None of the characters is of the kind that is read. -/
theorem Follows.stops {P : Char → Prop} [DecidablePred P] (h : Follows cs r)
    (hcs : (cs.all fun c => ¬P c) = true) : Stops P r := by
  obtain ⟨c, rest, rfl, hc⟩ := h
  exact stops_cons (of_decide_eq_true (List.all_eq_true.mp hcs c hc)) rest

theorem Follows.ne_cons {c : Char} (h : Follows cs r) (hc : c ∉ cs) (rest : List Char) :
    r ≠ c :: rest := by
  intro heq
  obtain ⟨d, rest', hr, hd⟩ := h
  obtain ⟨rfl, -⟩ := List.cons.inj (hr.symm.trans heq)
  exact hc hd

theorem follows_of_ends {close : Char} (h : Ends close r) (hcs : ',' ∈ cs ∧ close ∈ cs) :
    Follows cs r := by
  obtain ⟨c, rest, hr, hc⟩ := h
  refine ⟨c, rest, hr, ?_⟩
  rcases hc with rfl | rfl
  · exact hcs.1
  · exact hcs.2

end Follows

namespace Tells

variable {After After' : List Char → Prop} {w w' v v' : List Char} {P Q : Prop}

theorem mono (h : Tells After w w' P) (hPQ : P → Q) : Tells After w w' Q := by
  intro r r' hr hr' heq
  obtain ⟨hP, hrest⟩ := h r r' hr hr' heq
  exact ⟨hPQ hP, hrest⟩

/-- What a form tells, it also tells if less may follow it. -/
theorem restrict (h : Tells After w w' P) (hafter : ∀ r, After' r → After r) :
    Tells After' w w' P := by
  intro r r' hr hr'
  exact h r r' (hafter r hr) (hafter r' hr')

/-- The same form tells nothing, but it shows where it ends. -/
theorem same (w : List Char) (hP : P) : Tells After w w P := by
  intro r r' _ _ heq
  exact ⟨hP, List.append_cancel_left heq⟩

/-- **One form behind the other.** What may follow the first form is what the second one begins
with. -/
theorem append (h : Tells After' w w' P) (hv : P → Tells After v v' Q)
    (hafter : ∀ r, After r → After' (v ++ r)) (hafter' : ∀ r, After r → After' (v' ++ r)) :
    Tells After (w ++ v) (w' ++ v') (P ∧ Q) := by
  intro r r' hr hr' heq
  rw [List.append_assoc, List.append_assoc] at heq
  obtain ⟨hP, hrest⟩ := h _ _ (hafter r hr) (hafter' r' hr') heq
  obtain ⟨hQ, hend⟩ := hv hP r r' hr hr' hrest
  exact ⟨⟨hP, hQ⟩, hend⟩

theorem prepend (u : List Char) (h : Tells After w w' P) : Tells After (u ++ w) (u ++ w') P := by
  intro r r' hr hr' heq
  rw [List.append_assoc, List.append_assoc] at heq
  exact h r r' hr hr' (List.append_cancel_left heq)

/-- **A closing text** behind a form makes it known where the form ends. -/
theorem close (u : List Char) (h : Tells After' w w' P) (hu : ∀ r, After' (u ++ r)) :
    Tells After (w ++ u) (w' ++ u) P := by
  have happend : Tells After (w ++ u) (w' ++ u) (P ∧ True) :=
    h.append (fun _ => same u trivial) (fun r _ => hu r) (fun r _ => hu r)
  exact happend.mono And.left

end Tells

/-- **Numbers** are told by their digits, up to something else than a digit. -/
theorem tells_toDigits (m n : Nat) :
    Tells (Stops (·.isDigit = true)) (Nat.toDigits 10 m) (Nat.toDigits 10 n) (m = n) := by
  have hdigits : ∀ n, ∀ c ∈ Nat.toDigits 10 n, c.isDigit = true := by
    intro n c hc
    exact Nat.isDigit_of_mem_toDigits (by decide) (by decide) hc
  intro r r' hr hr' heq
  obtain ⟨hsame, hrest⟩ := eq_of_stretch (hdigits m) (hdigits n) hr hr' heq
  exact ⟨Text.eq_of_toDigits (by decide) (by decide) hsame, hrest⟩

theorem toList_toString (n : Nat) : (toString n).toList = Nat.toDigits 10 n := by
  rw [Nat.toString_eq_repr, Nat.toList_repr]

/-- **Two numbers with a fixed text between them** are told apart, if the text does not go on with
the digits of the first one. -/
theorem tells_numbers {between : List Char} (m n m' n' : Nat)
    (hbetween : ∀ r, Stops (·.isDigit = true) (between ++ r)) :
    Tells (Stops (·.isDigit = true)) (Nat.toDigits 10 m ++ (between ++ Nat.toDigits 10 n))
      (Nat.toDigits 10 m' ++ (between ++ Nat.toDigits 10 n')) (m = m' ∧ n = n') := by
  refine (tells_toDigits m m').append (fun _ => (tells_toDigits n n').prepend between) ?_ ?_
  · intro r _
    rw [List.append_assoc]
    exact hbetween _
  · intro r _
    rw [List.append_assoc]
    exact hbetween _

theorem Span.toList_toText (s : Span) : s.toText.toList =
    Nat.toDigits 10 s.start.toNat ++ (['.', '.'] ++ Nat.toDigits 10 s.stop.toNat) := by
  show (toString _ ++ ".." ++ toString _).toList = _
  rw [String.toList_append, String.toList_append, toList_toString, toList_toString,
    List.append_assoc]
  rfl

/-- **Spans** are told by their ends, up to something else than a digit. -/
theorem Span.tells_toText (s s' : Span) :
    Tells (Stops (·.isDigit = true)) s.toText.toList s'.toText.toList (s = s') := by
  have hdots : ∀ r, Stops (·.isDigit = true) (['.', '.'] ++ r) := by
    intro r
    exact stops_cons (by decide) _
  have hnumbers := tells_numbers s.start.toNat s.stop.toNat s'.start.toNat s'.stop.toNat hdots
  rw [s.toList_toText, s'.toList_toText]
  apply hnumbers.mono
  rintro ⟨hstart, hstop⟩
  cases s
  cases s'
  exact congrArg₂ mk (UInt32.toNat_inj.mp hstart) (UInt32.toNat_inj.mp hstop)

/-- **Forms with commas between them** tell what each of them tells, up to a closing character. -/
theorem tells_separated {α β : Type} {write : α → List Char} {key : α → β} {close : Char}
    {After : List Char → Prop} {as bs : List α} (hclose : close ≠ ',')
    (hpart : ∀ a ∈ as, ∀ b ∈ bs, Tells (Ends close) (write a) (write b) (key a = key b))
    (has : ∀ a ∈ as, ∀ r r', write a ++ r ≠ close :: r')
    (hbs : ∀ b ∈ bs, ∀ r r', write b ++ r ≠ close :: r') :
    Tells After (listSeparator.intercalate (as.map write) ++ [close])
      (listSeparator.intercalate (bs.map write) ++ [close]) (as.map key = bs.map key) := by
  intro r r' _ _ heq
  rw [List.append_assoc, List.append_assoc] at heq
  exact eq_of_separated hclose hpart has hbs heq

end ItemAttrs
