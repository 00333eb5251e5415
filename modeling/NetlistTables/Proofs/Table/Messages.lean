import NetlistTables.Proofs.Table.Violations
import NetlistTables.Proofs.Text.Split

/-!
# The messages of violations

What validation reports is told as a text, in which names stand between quotes. A name that cannot
be declared may hold quotes itself. But of the two names in a message at most one is such a name:
the primitive that a message tells of is looked at before its attributes and its pins, so it has
the form of an identifier where these are reported (`isParted_of_error`). So nothing is lost in the
text: the failure can be told from it (`eq_of_message_eq`).
-/

namespace NetlistTables.Table

open Check Code

variable {t u : List Primitive} {f g : Failure}

/-- In the message of a failure, what stands beside the one name that may be anything holds no
quote. -/
def Failure.IsParted : Failure → Prop
  | output _ => False
  | invalidIdentifier context _ | reservedWord context _ => '\x27' ∉ context.toList
  | duplicatePrimitive _ => True
  | zeroWidthPin primitive _ => '\x27' ∉ primitive.toList

/-! ## What stands beside a name -/

/-- Where the first violation is not in the name of a primitive, that name is an identifier. -/
theorem isIdentifier_of_first {c : Check} {p : Primitive}
    (hfirst : ∀ d, d.Before c → ∀ g, ¬ Violates t d g) (hp : t[c.spot.primitive]? = some p)
    (hpart : 0 < c.spot.part.rank) : isIdentifier p.name := by
  let d : Check := ⟨⟨c.spot.primitive, .name, 0⟩, .form⟩
  have hbefore : d.Before c := .inr ⟨rfl, .inl hpart⟩
  by_contra hform
  exact hfirst d hbefore _ (.form (.ofPrimitive hp) (mt isIdentifier_iff.2 hform))

theorem quote_notMem_of_isIdentifier {s : String} (h : isIdentifier s) : '\x27' ∉ s.toList :=
  notMem_of_isIdentifier h rfl

/-- The text that says what is named holds no quote. -/
theorem quote_notMem_context {s : Spot} {context name : String} (h : NameAt t s context name)
    (hname : ∀ p, t[s.primitive]? = some p → 0 < s.part.rank → isIdentifier p.name) :
    '\x27' ∉ context.toList := by
  have hlonger {p : Primitive} {e : String} (hp : isIdentifier p.name)
      (he : '\x27' ∉ e.toList) : '\x27' ∉ (p.name ++ e).toList := by
    rw [String.toList_append, List.mem_append, not_or]
    exact ⟨quote_notMem_of_isIdentifier hp, he⟩
  cases h with
  | ofPrimitive => decide
  | ofAttribute hp => exact hlonger (hname _ hp (Nat.succ_pos _)) (by decide)
  | ofInput hp => exact hlonger (hname _ hp (Nat.succ_pos _)) (by decide)
  | ofOutput hp => exact hlonger (hname _ hp (Nat.succ_pos _)) (by decide)

/-- Validation reports no failure of the output, and no two names that may be anything. -/
theorem isParted_of_error (h : validate t = .error f) : f.IsParted := by
  obtain ⟨c, hviolates, hfirst⟩ := validate_eq_error_iff_first.1 h
  cases hviolates with
  | width hpin =>
    cases hpin with
    | input hp => exact quote_notMem_of_isIdentifier (isIdentifier_of_first hfirst hp (Nat.succ_pos _))
    | output hp => exact quote_notMem_of_isIdentifier (isIdentifier_of_first hfirst hp (Nat.succ_pos _))
  | form hname =>
    exact quote_notMem_context hname fun p hp => isIdentifier_of_first hfirst hp
  | reservation hname =>
    exact quote_notMem_context hname fun p hp => isIdentifier_of_first hfirst hp
  | repetition => trivial

/-! ## Reading a message -/

/-- A quoted name behind a text without quotes can be told from the two. -/
theorem quoted_name_injective {opening context context' name name' : String}
    (h : '\x27' ∉ context.toList) (h' : '\x27' ∉ context'.toList)
    (heq : opening ++ context ++ ": '" ++ name ++ "'" =
      opening ++ context' ++ ": '" ++ name' ++ "'") : context = context' ∧ name = name' := by
  have hlist : (context.toList ++ [':', ' ']) ++ '\x27' :: name.toList =
      (context'.toList ++ [':', ' ']) ++ '\x27' :: name'.toList := by
    have hinner := (String.append_left_inj _).1 heq
    rw [String.append_assoc, String.append_assoc, String.append_assoc, String.append_assoc,
      String.append_right_inj] at hinner
    simpa using congrArg String.toList hinner
  obtain ⟨hcontext, hname⟩ := Text.split_first (by simp [h]) (by simp [h']) hlist
  exact ⟨String.toList_inj.1 (List.append_cancel_right hcontext), String.toList_inj.1 hname⟩

/-- A quoted name before the last one, which holds no quote, can be told from the two. -/
theorem quoted_pin_injective {opening pin pin' primitive primitive' : String}
    (h : '\x27' ∉ primitive.toList) (h' : '\x27' ∉ primitive'.toList)
    (heq : opening ++ pin ++ "' on primitive '" ++ primitive ++ "'" =
      opening ++ pin' ++ "' on primitive '" ++ primitive' ++ "'") :
    pin = pin' ∧ primitive = primitive' := by
  have hlist : (opening ++ pin ++ "' on primitive ").toList ++ '\x27' :: primitive.toList =
      (opening ++ pin' ++ "' on primitive ").toList ++ '\x27' :: primitive'.toList := by
    have hinner := (String.append_left_inj _).1 heq
    simpa using congrArg String.toList hinner
  obtain ⟨hpin, hprimitive⟩ := Text.split_last h h' hlist
  have hnames := (String.append_left_inj _).1 (String.toList_inj.1 hpin)
  exact ⟨(String.append_right_inj _).1 hnames, String.toList_inj.1 hprimitive⟩

/-- The letter that the message of a failure begins with. -/
def Failure.initial : Failure → Char
  | output _ | invalidIdentifier _ _ => 'I'
  | reservedWord _ _ => 'R'
  | duplicatePrimitive _ => 'D'
  | zeroWidthPin _ _ => 'Z'

theorem head?_message (f : Failure) : f.message.toList.head? = some f.initial := by
  have happend {s u : String} {c : Char} (h : s.toList.head? = some c) :
      (s ++ u).toList.head? = some c := by
    rw [String.toList_append, List.head?_append, h]
    rfl
  cases f with
  | output => exact happend rfl
  | duplicatePrimitive => exact happend (happend rfl)
  | invalidIdentifier | reservedWord | zeroWidthPin =>
    exact happend (happend (happend (happend rfl)))

/-- **A message tells the failure.** Two failures that validation reports, be it of one table or of
two, have the same message only if they are the same. -/
theorem eq_of_message_eq (hf : validate t = .error f) (hg : validate u = .error g)
    (h : f.message = g.message) : f = g := by
  have hparted := isParted_of_error hf
  have hparted' := isParted_of_error hg
  have hinitial : f.initial = g.initial := by
    rw [← Option.some_inj, ← head?_message, ← head?_message, h]
  cases f with
  | output => exact hparted.elim
  | invalidIdentifier context name =>
    cases g with
    | output => exact hparted'.elim
    | invalidIdentifier context' name' =>
      obtain ⟨rfl, rfl⟩ := quoted_name_injective hparted hparted' h
      rfl
    | _ => simp [Failure.initial] at hinitial
  | reservedWord context name =>
    cases g with
    | output => exact hparted'.elim
    | reservedWord context' name' =>
      obtain ⟨rfl, rfl⟩ := quoted_name_injective hparted hparted' h
      rfl
    | _ => simp [Failure.initial] at hinitial
  | duplicatePrimitive name =>
    cases g with
    | output => exact hparted'.elim
    | duplicatePrimitive name' =>
      have hname := (String.append_right_inj _).1 ((String.append_left_inj _).1 h)
      rw [hname]
    | _ => simp [Failure.initial] at hinitial
  | zeroWidthPin primitive pin =>
    cases g with
    | output => exact hparted'.elim
    | zeroWidthPin primitive' pin' =>
      obtain ⟨rfl, rfl⟩ := quoted_pin_injective hparted hparted' h
      rfl
    | _ => simp [Failure.initial] at hinitial

end NetlistTables.Table
