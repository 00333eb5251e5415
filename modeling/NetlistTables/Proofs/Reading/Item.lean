import NetlistTables.Proofs.Reading.Token

/-!
# Declarations of C

The second stage of reading a generated file. The tokens are grouped by their braces: a list in
braces becomes one tree, cut into elements at its commas, whether or not a comma follows the last
element; and the file is cut into chunks at the semicolons outside all braces. Each chunk is then
one of the items that a table needs: an array of strings, an array of records, an enumeration, an
external declaration. A comment or a directive outside all braces is an item of its own.

`readFile` reads a file from its bytes. What is needed of it is that it can be followed piece by
piece: `Builds` describes the trees that some tokens add within a declaration, `Declares` the items
that some tokens make up, and both are closed under appending.
-/

namespace NetlistTables.Reading

/-! ## Grouping tokens -/

/-- A token, or a list in braces by its elements, each of which is a sequence again. -/
inductive Tree
  | leaf (t : Token)
  | braces (elements : List (List Tree))

/-- What has been read of a list: its complete elements, and the one that has begun. -/
structure Level where
  done : List (List Tree) := []
  current : List Tree := []

namespace Level

/-- Go on with the element that has begun. -/
def add (l : Level) (t : Tree) : Level := { l with current := l.current ++ [t] }

/-- End the element that has begun. -/
def cut (l : Level) : Level := ⟨l.done ++ [l.current], []⟩

/-- The elements of a list that ends here. Behind a comma no further one has begun. -/
def elements (l : Level) : List (List Tree) :=
  if l.current.isEmpty then l.done else l.done ++ [l.current]

end Level

/-- Take one token, with the lists that are open, the innermost first and the file itself last. -/
def group : List Level → Token → Option (List Level)
  | l :: ls, .mark '\x7b' => some ({} :: l :: ls)
  | l :: l' :: ls, .mark '\x7d' => some (l'.add (.braces l.elements) :: ls)
  | l :: l' :: ls, .mark ',' => some (l.cut :: l' :: ls)
  | [l], .mark ';' => some [l.cut]
  | [l], .comment s => some [(l.add (.leaf (.comment s))).cut]
  | [l], .directive s => some [(l.add (.leaf (.directive s))).cut]
  | l :: ls, t => some (l.add (.leaf t) :: ls)
  | [], _ => none

/-- The chunks of a file. -/
def chunks (ts : List Token) : Option (List (List Tree)) :=
  (ts.foldlM group [{}]).bind fun
    | [⟨done, []⟩] => some done
    | _ => none

/-! ## Items -/

/-- The initializer of a field. -/
inductive Value
  | name (symbol : String)
  | number (n : Nat)
  | text (s : String)
  deriving DecidableEq, Repr

/-- The fields of a record, each with its initializer. -/
abbrev Record := List (String × Value)

/-- What stands outside all braces. -/
inductive Item
  | comment (content : String)
  | directive (content : String)
  /-- The definition of an array of strings. -/
  | strings (symbol : String) (elements : List String)
  /-- The definition of an array of structures of a tag. -/
  | records (tag symbol : String) (elements : List Record)
  /-- An enumeration without a tag, by its enumerators and their values. -/
  | enumeration (members : List (String × Nat))
  /-- The declaration of an array of structures that is defined elsewhere. -/
  | external (tag symbol : String)
  deriving DecidableEq, Repr

def value? : Tree → Option Value
  | .leaf (.word s) => some (.name s)
  | .leaf (.number n) => some (.number n)
  | .leaf (.text s) => some (.text s)
  | _ => none

def string? : List Tree → Option String
  | [.leaf (.text s)] => some s
  | _ => none

def member? : List Tree → Option (String × Nat)
  | [.leaf (.word s), .leaf (.mark '='), .leaf (.number n)] => some (s, n)
  | _ => none

def field? : List Tree → Option (String × Value)
  | [.leaf (.mark '.'), .leaf (.word f), .leaf (.mark '='), v] => (value? v).map (f, ·)
  | _ => none

def record? : List Tree → Option Record
  | [.braces fields] => fields.mapM field?
  | _ => none

/-- The item that a chunk is. -/
def item? : List Tree → Option Item
  | [.leaf (.comment s)] => some (.comment s)
  | [.leaf (.directive s)] => some (.directive s)
  | [.leaf (.word "static"), .leaf (.word "char"), .leaf (.mark '*'), .leaf (.word s),
      .leaf (.mark '['), .leaf (.mark ']'), .leaf (.mark '='), .braces es] =>
    (es.mapM string?).map (.strings s)
  | [.leaf (.word "struct"), .leaf (.word tag), .leaf (.word s), .leaf (.mark '['),
      .leaf (.mark ']'), .leaf (.mark '='), .braces es] =>
    (es.mapM record?).map (.records tag s)
  | [.leaf (.word "enum"), .braces es] => (es.mapM member?).map .enumeration
  | [.leaf (.word "extern"), .leaf (.word "struct"), .leaf (.word tag), .leaf (.word s),
      .leaf (.mark '['), .leaf (.mark ']')] => some (.external tag s)
  | _ => none

/-- The items of a text. -/
def items (s : String) : Option (List Item) :=
  (tokens s).bind fun ts => (chunks ts).bind fun cs => cs.mapM item?

/-- The items of a file of UTF-8 bytes. -/
def readFile (bytes : ByteArray) : Option (List Item) := (String.fromUTF8? bytes).bind items

/-- Reading back a list, element by element. -/
theorem mapM_map_eq_some {α β γ : Type} {xs : List α} {f : α → β} {g : β → Option γ} {h : α → γ}
    (hg : ∀ x ∈ xs, g (f x) = some (h x)) : (xs.map f).mapM g = some (xs.map h) := by
  induction xs with
  | nil => rfl
  | cons x xs ih =>
    rw [List.map_cons, List.mapM_cons, hg x (by simp), ih fun y hy => hg y (by simp [hy])]
    rfl

/-! ## Trees, piece by piece -/

/-- Does a token only go on with the element that has begun? -/
def Token.isPlain : Token → Bool
  | .word _ | .number _ | .text _ => true
  | .mark c => c != '\x7b' && c != '\x7d' && c != ',' && c != ';'
  | .comment _ | .directive _ => false

theorem group_of_isPlain {t : Token} (h : t.isPlain) (l : Level) (ls : List Level) :
    group (l :: ls) t = some (l.add (.leaf t) :: ls) := by
  unfold group
  split <;> simp_all [Token.isPlain]

/-- Wherever they stand, the tokens `ts` add the trees `us` to the element that has begun. -/
def Builds (ts : List Token) (us : List Tree) : Prop :=
  ∀ (l : Level) (ls : List Level),
    ts.foldlM group (l :: ls) = some ({ l with current := l.current ++ us } :: ls)

namespace Builds

theorem append {ts ts' : List Token} {us us' : List Tree} (h : Builds ts us)
    (h' : Builds ts' us') : Builds (ts ++ ts') (us ++ us') := by
  intro l ls
  rw [List.foldlM_append, h, Option.bind_eq_bind, Option.bind_some, h']
  simp

theorem plain {ts : List Token} (h : ts.all Token.isPlain) : Builds ts (ts.map .leaf) := by
  induction ts with
  | nil =>
    intro l ls
    simp
  | cons t ts ih =>
    obtain ⟨ht, hts⟩ := Bool.and_eq_true_iff.1 h
    intro l ls
    rw [List.foldlM_cons, group_of_isPlain ht, Option.bind_eq_bind, Option.bind_some, ih hts]
    simp [Level.add]

variable {α : Type} {xs : List α} {f : α → List Token} {g : α → List Tree}

/-- Elements that each end in a comma, within braces. -/
theorem elements (h : ∀ x ∈ xs, Builds (f x) (g x)) (done : List (List Tree)) (l : Level)
    (ls : List Level) :
    (xs.flatMap fun x => f x ++ [.mark ',']).foldlM group (⟨done, []⟩ :: l :: ls) =
      some (⟨done ++ xs.map g, []⟩ :: l :: ls) := by
  induction xs generalizing done with
  | nil => simp
  | cons x xs ih =>
    rw [List.flatMap_cons, List.foldlM_append, List.foldlM_append, h x (by simp)]
    have hcut : [Token.mark ','].foldlM group (⟨done, [] ++ g x⟩ :: l :: ls) =
        some (⟨done ++ [g x], []⟩ :: l :: ls) := rfl
    simp only [Option.bind_eq_bind, Option.bind_some, hcut]
    rw [ih (fun y hy => h y (by simp [hy])), List.append_assoc, List.singleton_append,
      List.map_cons]

/-- A list in braces of which every element ends in a comma. -/
theorem braces (h : ∀ x ∈ xs, Builds (f x) (g x)) :
    Builds (.mark '\x7b' :: (xs.flatMap fun x => f x ++ [.mark ',']) ++ [.mark '\x7d'])
      [.braces (xs.map g)] := by
  intro l ls
  have hopen : group (l :: ls) (.mark '\x7b') = some ({} :: l :: ls) := rfl
  rw [List.cons_append, List.foldlM_cons, hopen, Option.bind_eq_bind, Option.bind_some,
    List.foldlM_append, elements h]
  rfl

/-- A list in braces whose last element ends in no comma. -/
theorem braces_last {ts : List Token} {us : List Tree} (h : ∀ x ∈ xs, Builds (f x) (g x))
    (hlast : Builds ts us) (hus : us ≠ []) :
    Builds (.mark '\x7b' :: (xs.flatMap fun x => f x ++ [.mark ',']) ++ ts ++ [.mark '\x7d'])
      [.braces (xs.map g ++ [us])] := by
  intro l ls
  have hopen : group (l :: ls) (.mark '\x7b') = some ({} :: l :: ls) := rfl
  rw [List.append_assoc, List.cons_append, List.foldlM_cons, hopen, Option.bind_eq_bind,
    Option.bind_some, List.foldlM_append, elements h, Option.bind_eq_bind, Option.bind_some,
    List.foldlM_append, hlast]
  simp [group, Level.add, Level.elements, hus]

end Builds

/-! ## Items, piece by piece -/

/-- Outside all braces and between declarations, the tokens `ts` make up the items `is`. -/
def Declares (ts : List Token) (is : List Item) : Prop :=
  ∃ cs, (∀ done, ts.foldlM group [⟨done, []⟩] = some [⟨done ++ cs, []⟩]) ∧
    cs.mapM item? = some is

namespace Declares

theorem nil : Declares [] [] := ⟨[], by simp, rfl⟩

theorem append {ts ts' : List Token} {is is' : List Item} (h : Declares ts is)
    (h' : Declares ts' is') : Declares (ts ++ ts') (is ++ is') := by
  obtain ⟨cs, hcs, hi⟩ := h
  obtain ⟨cs', hcs', hi'⟩ := h'
  refine ⟨cs ++ cs', fun done => ?_, ?_⟩
  · rw [List.foldlM_append, hcs, Option.bind_eq_bind, Option.bind_some, hcs', List.append_assoc]
  · simp [List.mapM_append, hi, hi']

/-- A declaration is ended by a semicolon. -/
theorem declaration {ts : List Token} {us : List Tree} {i : Item} (h : Builds ts us)
    (hi : item? us = some i) : Declares (ts ++ [.mark ';']) [i] := by
  refine ⟨[us], fun done => ?_, by simp [hi]⟩
  rw [List.foldlM_append, h]
  rfl

theorem comment (s : String) : Declares [.comment s] [.comment s] :=
  ⟨[[.leaf (.comment s)]], fun _ => rfl, rfl⟩

theorem directive (s : String) : Declares [.directive s] [.directive s] :=
  ⟨[[.leaf (.directive s)]], fun _ => rfl, rfl⟩

/-- A text whose tokens make up items is read as these. -/
theorem items_eq {s : String} {ts : List Token} {is : List Item} (h : Declares ts is)
    (hs : tokens s = some ts) : items s = some is := by
  obtain ⟨cs, hcs, hi⟩ := h
  have hchunks : chunks ts = some cs := by
    rw [chunks, hcs []]
    simp
  rw [items, hs, Option.bind_some, hchunks, Option.bind_some, hi]

end Declares

/-- The bytes of a text are read as the text. -/
theorem readFile_toUTF8 (s : String) : readFile s.toUTF8 = items s := by
  have h : String.fromUTF8? s.toUTF8 = some s := by
    rw [String.toUTF8_eq_toByteArray, String.fromUTF8?, dif_pos s.isValidUTF8]
    rfl
  rw [readFile, h, Option.bind_some]

end NetlistTables.Reading
