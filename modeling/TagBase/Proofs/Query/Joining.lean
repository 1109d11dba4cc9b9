import TagBase.Proofs.Query.Grammar
import TagBase.Proofs.Query.Seam
import TagBase.Proofs.Query.Terms

namespace TagBase

namespace Token

variable {text rest : List Char} {kinds others : List TokenKind}

theorem Spells.blanks {gap : List Char} (hgap : gap.all Text.isBlank = true)
    (hrest : Spells rest others) : Spells (gap ++ rest) others := by
  induction gap with
  | nil => exact hrest
  | cons c gap ih =>
      rw [List.all_cons, Bool.and_eq_true] at hgap
      exact .blank hgap.1 (ih hgap.2)

theorem Spells.grouped (h : Spells text kinds) (hrest : Spells rest others) :
    Spells ('(' :: (text ++ ')' :: rest)) (.openGroup :: (kinds ++ .closeGroup :: others)) :=
  .openGroup (h.append (parts_cons rfl (by decide) rest) (.closeGroup hrest))

end Token

namespace Query

open Token (Spells parts_cons)

theorem Reads.append {groups around : List (Option Query)} {before : Option Query}
    {kinds rest : List TokenKind} {asked query : Query} (h : Reads groups before kinds asked)
    (hasked : asked ≠ .everything) (hrest : Reads around (some asked) rest query) :
    Reads (groups ++ around) before (kinds ++ rest) query := by
  induction h with
  | nothing => exact absurd rfl hasked
  | done => exact hrest
  | openGroup _ ih => exact .openGroup (ih hasked hrest)
  | closeGroup _ ih => exact .closeGroup (ih hasked hrest)
  | and hnext _ ih => exact .and hnext (ih hasked hrest)
  | compared _ ih => exact .compared (ih hasked hrest)
  | @tagged _ _ _ _ kinds _ hnext _ ih =>
      refine .tagged (fun op => ?_) (ih hasked hrest)
      cases kinds with
      | nil => exact hrest.head?_ne_operator op
      | cons => exact hnext op

theorem Reads.grouped {outer : List (Option Query)} {before : Option Query}
    {kinds rest : List TokenKind} {asked query : Query} (h : Reads [] none kinds asked)
    (hasked : asked ≠ .everything)
    (hrest : Reads outer (some (after before asked)) rest query) :
    Reads outer before (.openGroup :: (kinds ++ .closeGroup :: rest)) query :=
  .openGroup (h.append hasked (.closeGroup hrest))

theorem Reads.exists_reads_behind {kinds : List TokenKind} {query : Query}
    (h : Reads [] none kinds query) (before : Query) :
    ∃ joined, Reads [] (some before) kinds joined ∧ joined.terms = before.terms ++ query.terms := by
  obtain ⟨joined, hjoined⟩ : ∃ joined, Reads [] (some before) kinds joined := by
    cases h.derives with
    | nothing => exact ⟨before, .done⟩
    | query hderives =>
        obtain ⟨joined, hleads⟩ := exists_leads_of_derives hderives nofun (some before) nofun
        exact ⟨joined, by simpa using hleads (by simp) .done⟩
  refine ⟨joined, hjoined, ?_⟩
  rw [hjoined.terms_eq, h.terms_eq]
  rfl

variable {first second : String} {left right : Query}

theorem exists_read_append (hfirst : read first = .ok left) (hsecond : read second = .ok right) :
    ∃ query, read (first ++ " " ++ second) = .ok query ∧
      query.terms = left.terms ++ right.terms := by
  obtain ⟨kinds, hspells, hreads⟩ := read_eq_ok_iff.mp hfirst
  obtain ⟨others, hspells', hreads'⟩ := read_eq_ok_iff.mp hsecond
  have hjoined : Spells (first ++ " " ++ second).toList (kinds ++ others) := by
    have hseam : Spells (' ' :: second.toList) others := .blank rfl hspells'
    simpa using hspells.append (parts_cons rfl (by decide) _) hseam
  by_cases hleft : left = .everything
  · subst hleft
    rw [hreads.eq_nil_of_everything, List.nil_append] at hjoined
    exact ⟨right, read_eq_ok_iff.mpr ⟨others, hjoined, hreads'⟩, rfl⟩
  · obtain ⟨query, hquery, hterms⟩ := hreads'.exists_reads_behind left
    exact ⟨query, read_eq_ok_iff.mpr ⟨_, hjoined, hreads.append hleft hquery⟩, hterms⟩

theorem exists_read_append_and (hfirst : read first = .ok left) (hsecond : read second = .ok right)
    (hleft : left ≠ .everything) (hright : right ≠ .everything) :
    ∃ query, read (first ++ " and " ++ second) = .ok query ∧
      query.terms = left.terms ++ right.terms := by
  obtain ⟨kinds, hspells, hreads⟩ := read_eq_ok_iff.mp hfirst
  obtain ⟨others, hspells', hreads'⟩ := read_eq_ok_iff.mp hsecond
  have hjoined : Spells (first ++ " and " ++ second).toList (kinds ++ .and :: others) := by
    simpa using hspells.append (parts_cons rfl (by decide) _) hspells'.spaced_and
  obtain ⟨query, hquery, hterms⟩ := hreads'.exists_reads_behind left
  cases others with
  | nil =>
      cases hreads'
      exact absurd rfl hright
  | cons next others =>
      have hnext : next ≠ .closeGroup := by simpa using hreads'.head?_ne_closeGroup
      exact ⟨query, read_eq_ok_iff.mpr ⟨_, hjoined, hreads.append hleft (.and hnext hquery)⟩,
        hterms⟩

/-- A text that asks for something is read in parentheses as it is read alone. Two of them in
parentheses are read as their conjunction, with any number of blanks between the groups and also
with an `and` there. -/
theorem read_grouped (hfirst : read first = .ok left) (hsecond : read second = .ok right)
    (hleft : left ≠ .everything) (hright : right ≠ .everything) :
    read ("(" ++ first ++ ")") = .ok left ∧
      (∀ gap : String, gap.toList.all Text.isBlank = true →
        read ("(" ++ first ++ ")" ++ gap ++ "(" ++ second ++ ")") = .ok (.both left right)) ∧
      read ("(" ++ first ++ ") and (" ++ second ++ ")") = .ok (.both left right) := by
  obtain ⟨kinds, hspells, hreads⟩ := read_eq_ok_iff.mp hfirst
  obtain ⟨others, hspells', hreads'⟩ := read_eq_ok_iff.mp hsecond
  have hbehind : Spells ('(' :: (second.toList ++ [')']))
      (.openGroup :: (others ++ [.closeGroup])) := hspells'.grouped .nil
  have hboth : Reads [] (some left) (.openGroup :: (others ++ [.closeGroup])) (.both left right) :=
    hreads'.grouped hright .done
  refine ⟨?_, fun gap hgap => ?_, ?_⟩
  · have hgroup : Spells ("(" ++ first ++ ")").toList (.openGroup :: (kinds ++ [.closeGroup])) := by
      simpa using hspells.grouped .nil
    exact read_eq_ok_iff.mpr ⟨_, hgroup, hreads.grouped hleft .done⟩
  · have hgroups : Spells ("(" ++ first ++ ")" ++ gap ++ "(" ++ second ++ ")").toList
        (.openGroup :: (kinds ++ .closeGroup :: .openGroup :: (others ++ [.closeGroup]))) := by
      simpa using hspells.grouped (hbehind.blanks hgap)
    exact read_eq_ok_iff.mpr ⟨_, hgroups, hreads.grouped hleft hboth⟩
  · have hgroups : Spells ("(" ++ first ++ ") and (" ++ second ++ ")").toList
        (.openGroup ::
          (kinds ++ .closeGroup :: .and :: .openGroup :: (others ++ [.closeGroup]))) := by
      simpa using hspells.grouped hbehind.spaced_and
    exact read_eq_ok_iff.mpr ⟨_, hgroups, hreads.grouped hleft (.and nofun hboth)⟩

theorem read_grouped_title :
    let first := "title==\"a) or (\""
    let second := "os!=\\ ((music)and track=*)"
    let left : Query := .valued "title" .eq "a) or ("
    let right : Query := .both (.valued "os" .ne "\\") (.both (.tagged "music") (.anyValue "track"))
    let gap := " \u3000"
    read first = .ok left ∧ read second = .ok right ∧ left ≠ .everything ∧ right ≠ .everything ∧
      read ("(" ++ first ++ ")") = .ok left ∧ gap.toList.all Text.isBlank = true ∧
      read ("(" ++ first ++ ")" ++ gap ++ "(" ++ second ++ ")") = .ok (.both left right) ∧
      read ("(" ++ first ++ ") and (" ++ second ++ ")") = .ok (.both left right) := by
  intro first second left right gap
  have hfirst : read first = .ok left := by decide +kernel
  have hsecond : read second = .ok right := by decide +kernel
  have hgap : gap.toList.all Text.isBlank = true := by decide +kernel
  obtain ⟨hgroup, hbeside, hand⟩ := read_grouped hfirst hsecond nofun nofun
  exact ⟨hfirst, hsecond, nofun, nofun, hgroup, hgap, hbeside gap hgap, hand⟩

end Query

end TagBase
