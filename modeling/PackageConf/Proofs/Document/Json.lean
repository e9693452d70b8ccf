import Mathlib
import PackageConf.Document.Json
import PackageConf.Proofs.Text.Escaped
import PackageConf.Proofs.Text.Legible
import PackageConf.Proofs.Text.Words
/-!
# Documents told by their JSON

Everything in JSON shows its end by itself, whatever comes behind: a string by its closing quote,
which is escaped inside, and brackets by what stands between two items. So a text tells the document
(`document_legible`), with strings written in any of the ways the format has for them, but for one
thing: an empty list does not show whether it is one of texts or one of tables.
-/
namespace PackageConf.Json

/-! ## Strings -/

def escapeTable : EscapeTable
  | '"' => some (.char '"')
  | '\\' => some (.char '\\')
  | '/' => some (.char '/')
  | 'b' => some (.char '\x08')
  | 'f' => some (.char '\x0c')
  | 'n' => some (.char '\n')
  | 'r' => some (.char '\r')
  | 't' => some (.char '\t')
  | 'u' => some (.number 4)
  | _ => none

/-- The ways to write a text as a string. A character too high for four digits is written as it is;
pairs of numbers for one character are left out. -/
def Spelled (s x : List Char) : Prop :=
  ∃ y, escapeTable.SpellsText s y ∧ x = '"' :: (y ++ ['"'])

section
variable {write : String → List Char} (hwrite : ∀ s, Spelled s.toList (write s))
include hwrite

theorem write_append_ne {c : Char} (hc : c ≠ '"') (s : String) (r t : List Char) :
    write s ++ r ≠ c :: t := by
  obtain ⟨y, -, hx⟩ := hwrite s
  rw [hx]
  intro h
  exact hc (List.cons_eq_cons.1 h).1.symm

theorem write_legible : Legible Anything id write := by
  intro s s' r r' _ _ h
  obtain ⟨y, hy, hx⟩ := hwrite s
  obtain ⟨y', hy', hx'⟩ := hwrite s'
  have hcut : y ++ '"' :: r = y' ++ '"' :: r' := by simpa [hx, hx'] using h
  obtain ⟨hs, hrest⟩ := hy.inj hy' hcut
  exact ⟨String.toList_inj.1 hs, hrest⟩

end

theorem hexPadded_of_lt {n : Nat} (h : n < 0x20) :
    (Text.hexPadded 4 n).length = 4 ∧ Text.hexValue? (Text.hexPadded 4 n) = some n := by
  have hall : ∀ n < 0x20, (Text.hexPadded 4 n).length = 4 ∧
      Text.hexValue? (Text.hexPadded 4 n) = some n := by decide
  exact hall n h

theorem spells_escape (c : Char) : escapeTable.Spells c (escape c) := by
  unfold escape
  split
  case h_8 hquote hmark _ _ _ _ _ =>
    split
    · next hlow => exact .number rfl (hexPadded_of_lt hlow).1 (hexPadded_of_lt hlow).2
    · exact .plain hquote hmark
  all_goals exact .letter rfl

theorem spelled_string (s : String) : Spelled s.toList (string s) :=
  ⟨_, .flatMap spells_escape s.toList, rfl⟩

/-! ## Brackets -/

section
variable {α κ : Type} {k : α → κ} {f : α → List Char} {depth : Nat} {opening closing : Char}

/-- An item behind another one, between brackets that stand at a depth. -/
def further (depth : Nat) (item : List Char) : List Char :=
  ',' :: '\n' :: (indent (depth + 1) ++ item)

def bracketEnd (depth : Nat) (closing : Char) : List Char := '\n' :: (indent depth ++ [closing])

theorem bracketed_cons (x : List Char) (xs : List (List Char)) :
    bracketed depth opening closing (x :: xs) = opening :: '\n' :: (indent (depth + 1) ++
      (x ++ (xs.flatMap (further depth) ++ bracketEnd depth closing))) := by
  have hitems : bracketed depth opening closing (x :: xs) =
      opening :: '\n' :: [',', '\n'].intercalate ((x :: xs).map (indent (depth + 1) ++ ·)) ++
        '\n' :: indent depth ++ [closing] := rfl
  have hfurther : (fun y => [',', '\n'] ++ (indent (depth + 1) ++ y)) = further depth := rfl
  rw [hitems, List.map_cons, Text.intercalate_eq_append_flatMap, List.flatMap_map, hfurther]
  simp [bracketEnd]

/-- Behind an item there is another one or the end of the bracket. -/
theorem further_legible (hf : Legible Anything k f) :
    Legible (·.head? = some '\n') (List.map k) (List.flatMap fun a => further depth (f a)) := by
  have hone : Legible Anything k fun a => further depth (f a) :=
    hf.append_left (',' :: '\n' :: indent (depth + 1))
  refine hone.flatMap (fun _ _ => trivial) (fun _ _ => trivial) ?_
  rintro r hr a t rfl
  simp [further] at hr

/-- **Items between brackets** can be told apart if each of them shows its end. -/
theorem bracketed_legible (hf : Legible Anything k f) (hclosing : closing ≠ '\n') :
    Legible Anything (List.map k) fun xs => bracketed depth opening closing (xs.map f) := by
  intro xs ys r s _ _ h
  cases xs with
  | nil =>
    cases ys with
    | nil => simpa [bracketed] using h
    | cons y ys => simp [bracketed, hclosing] at h
  | cons x xs =>
    cases ys with
    | nil => simp [bracketed, hclosing.symm] at h
    | cons y ys =>
      simp only [List.map_cons, bracketed_cons, List.flatMap_map, List.cons_append,
        List.cons_eq_cons, true_and, List.append_assoc] at h
      obtain ⟨hk, hrest⟩ := hf trivial trivial (List.append_cancel_left h)
      obtain ⟨hks, hend⟩ := further_legible hf (by simp [bracketEnd]) (by simp [bracketEnd]) hrest
      exact ⟨by rw [List.map_cons, List.map_cons, hk, hks], List.append_cancel_left hend⟩

end

/-! ## Values -/

section
variable {write : String → List Char} (hwrite : ∀ s, Spelled s.toList (write s))
include hwrite

theorem member_legible {α κ : Type} {k : α → κ} {f : α → List Char} (hf : Legible Anything k f) :
    Legible Anything (fun m : String × α => (m.1, k m.2)) fun m => member write m.1 (f m.2) :=
  (write_legible hwrite).pair (hf.append_left [':', ' ']) fun _ _ _ => trivial

theorem write_append_ne_bracketed {opening : Char} (hopening : opening ≠ '"') (s : String)
    (depth : Nat) (closing : Char) (items : List (List Char)) (r t : List Char) :
    write s ++ r ≠ bracketed depth opening closing items ++ t := by
  cases items <;> exact write_append_ne hwrite hopening s r _

theorem leaf_legible (depth : Nat) : Legible Anything id (leaf write depth) := by
  intro l l' r s _ _ h
  cases l with
  | text x =>
    cases l' with
    | text y =>
      obtain ⟨hxy, hrs⟩ := write_legible hwrite trivial trivial h
      exact ⟨congrArg Leaf.text hxy, hrs⟩
    | texts ys => exact absurd h (write_append_ne_bracketed hwrite (by decide) x _ _ _ r s)
  | texts xs =>
    cases l' with
    | text y => exact absurd h.symm (write_append_ne_bracketed hwrite (by decide) y _ _ _ s r)
    | texts ys =>
      obtain ⟨hxy, hrs⟩ :=
        bracketed_legible (write_legible hwrite) (by decide) trivial trivial h
      exact ⟨congrArg Leaf.texts (by simpa using hxy), hrs⟩

theorem table_legible (depth : Nat) : Legible Anything id (table write depth) := by
  refine (bracketed_legible (member_legible hwrite (leaf_legible hwrite (depth + 1)))
    (by decide)).of_key ?_
  intro t t' h
  simpa using h

end

/-! ## Documents -/

/-- An item of a list at the top, whatever the list is one of. -/
def item (write : String → List Char) (depth : Nat) : String ⊕ Table → List Char :=
  Sum.elim write (table write depth)

/-- A text, or the items of a list: what an entry says in JSON. -/
def contents : Entry → String ⊕ List (String ⊕ Table)
  | .leaf (.text s) => .inl s
  | .leaf (.texts xs) => .inr (xs.map .inl)
  | .tables ts => .inr (ts.map .inr)

theorem entry_eq (write : String → List Char) (depth : Nat) (e : Entry) :
    entry write depth e = Sum.elim write (fun items => bracketed depth '[' ']'
      (items.map (item write (depth + 1)))) (contents e) := by
  rcases e with (s | xs) | ts
  · rfl
  · simp [entry, leaf, contents, item]
  · simp [entry, contents, item]

theorem eq_of_contents_leaf {l l' : Leaf} (h : contents (.leaf l) = contents (.leaf l')) :
    l = l' := by
  cases l <;> cases l'
  · exact congrArg Leaf.text (Sum.inl.inj h)
  · cases h
  · cases h
  · exact congrArg Leaf.texts (Sum.inl_injective.list_map (Sum.inr.inj h))

theorem eq_of_contents_tables {ts ts' : List Table}
    (h : contents (.tables ts) = contents (.tables ts')) : ts = ts' :=
  Sum.inr_injective.list_map (Sum.inr.inj h)

section
variable {write : String → List Char} (hwrite : ∀ s, Spelled s.toList (write s))
include hwrite

theorem item_legible (depth : Nat) : Legible Anything id (item write depth) := by
  intro a b r s _ _ h
  rcases a with x | t <;> rcases b with y | u
  · obtain ⟨hxy, hrs⟩ := write_legible hwrite trivial trivial h
    exact ⟨congrArg Sum.inl hxy, hrs⟩
  · exact absurd h (write_append_ne_bracketed hwrite (by decide) x _ _ _ r s)
  · exact absurd h.symm (write_append_ne_bracketed hwrite (by decide) y _ _ _ s r)
  · obtain ⟨htu, hrs⟩ := table_legible hwrite depth trivial trivial h
    exact ⟨congrArg Sum.inr htu, hrs⟩

theorem entry_legible (depth : Nat) : Legible Anything contents (entry write depth) := by
  intro e e' r s _ _ h
  rw [entry_eq, entry_eq] at h
  rcases he : contents e with x | xs <;> rcases he' : contents e' with y | ys <;>
    rw [he, he'] at h
  · obtain ⟨hxy, hrs⟩ := write_legible hwrite trivial trivial h
    exact ⟨congrArg Sum.inl hxy, hrs⟩
  · exact absurd h (write_append_ne_bracketed hwrite (by decide) x _ _ _ r s)
  · exact absurd h.symm (write_append_ne_bracketed hwrite (by decide) y _ _ _ s r)
  · obtain ⟨hxy, hrs⟩ :=
      bracketed_legible (item_legible hwrite (depth + 1)) (by decide) trivial trivial h
    exact ⟨congrArg Sum.inr (by simpa using hxy), hrs⟩

/-- **The JSON of a document tells** its names in order, and what stands under each name. -/
theorem document_legible :
    Legible Anything (List.map fun m => (m.1, contents m.2))
      fun d => (document write d).toList := by
  intro d d' r s _ _ h
  simp only [document, String.toList_ofList] at h
  exact bracketed_legible (member_legible hwrite (entry_legible hwrite 1)) (by decide) trivial
    trivial h

end

theorem getLast?_bracketed (depth : Nat) (opening closing : Char) (items : List (List Char)) :
    (bracketed depth opening closing items).getLast? = some closing := by
  cases items with
  | nil => rfl
  | cons x xs => rw [bracketed_cons]; simp [bracketEnd, List.getLast?_append, List.getLast?_cons]

theorem getLast?_document (write : String → List Char) (d : Document) :
    (document write d).toList.getLast? = some '\x7d' := by
  rw [document, String.toList_ofList]
  exact getLast?_bracketed 0 _ _ _

end PackageConf.Json
