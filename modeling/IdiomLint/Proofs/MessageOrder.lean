import IdiomLint.Output.Message
import Mathlib.Data.List.Basic

/-! The order of messages. Keys that can be compared at all are totally ordered, so sorting is
described by what it keeps: the entries, and among those of one key their order. Messages of files
with names of their own can always be compared, texts come first, and since no key is shared by two
files, the order in which the files were checked leaves no trace. -/
namespace IdiomLint

namespace KeyPart

def partLe? : KeyPart → KeyPart → Option Bool
  | .text s, .text t => some (s ≤ t)
  | .number m, .number n => some (m ≤ n)
  | _, _ => none

section

variable {p q r : KeyPart}

theorem partLe?_total (comparable : (partLe? p q).isSome) :
    partLe? p q = some true ∨ partLe? q p = some true := by
  cases p <;> cases q
  case text.text s t => simpa [partLe?] using String.le_total s t
  case number.number m n => simpa [partLe?] using Int.le_total m n
  all_goals cases comparable

theorem partLe?_antisymm (pq : partLe? p q = some true) (qp : partLe? q p = some true) : p = q := by
  cases p <;> cases q <;> simp only [partLe?, Option.some.injEq, decide_eq_true_eq] at pq qp
  case text.text => rw [String.le_antisymm pq qp]
  case number.number => rw [Int.le_antisymm pq qp]
  all_goals cases pq

theorem partLe?_trans (pq : partLe? p q = some true) (qr : partLe? q r = some true) :
    partLe? p r = some true := by
  cases p <;> cases q <;> cases r <;> simp only [partLe?, Option.some.injEq, decide_eq_true_eq] at *
  case text.text.text => exact String.le_trans pq qr
  case number.number.number => exact Int.le_trans pq qr
  all_goals first | cases pq | cases qr

end

theorem le?_cons (p q : KeyPart) (a b : List KeyPart) :
    le? (p :: a) (q :: b) = if p = q then le? a b else partLe? p q := by
  cases p <;> cases q <;> simp [le?, partLe?]

variable {a b c : List KeyPart}

theorem le?_refl (a : List KeyPart) : le? a a = some true := by
  induction a with
  | nil => rfl
  | cons p a ih => rw [le?_cons, if_pos rfl, ih]

theorem le?_total (comparable : (le? a b).isSome) : le? a b = some true ∨ le? b a = some true := by
  induction a generalizing b with
  | nil => exact .inl rfl
  | cons p a ih =>
    cases b with
    | nil => exact .inr rfl
    | cons q b =>
      rw [le?_cons] at comparable ⊢
      rw [le?_cons]
      by_cases same : p = q
      · rw [if_pos same] at comparable ⊢
        rw [if_pos same.symm]
        exact ih comparable
      · rw [if_neg same] at comparable ⊢
        rw [if_neg (Ne.symm same)]
        exact partLe?_total comparable

theorem le?_antisymm (ab : le? a b = some true) (ba : le? b a = some true) : a = b := by
  induction a generalizing b with
  | nil =>
    cases b with
    | nil => rfl
    | cons q b => cases ba
  | cons p a ih =>
    cases b with
    | nil => cases ab
    | cons q b =>
      rw [le?_cons] at ab ba
      by_cases same : p = q
      · rw [if_pos same] at ab
        rw [if_pos same.symm] at ba
        rw [same, ih ab ba]
      · rw [if_neg same] at ab
        rw [if_neg (Ne.symm same)] at ba
        exact absurd (partLe?_antisymm ab ba) same

/-- The first parts that differ decide, and among three keys two pairs of them may. -/
theorem le?_trans (ab : le? a b = some true) (bc : le? b c = some true) : le? a c = some true := by
  induction a generalizing b c with
  | nil => rfl
  | cons p a ih =>
    cases b with
    | nil => cases ab
    | cons q b =>
      cases c with
      | nil => cases bc
      | cons r c =>
        rw [le?_cons] at ab bc ⊢
        by_cases pq : p = q
        · subst pq
          by_cases pr : p = r
          · simp only [if_pos pr, if_true] at ab bc ⊢
            exact ih ab bc
          · simpa only [if_neg pr] using bc
        · by_cases qr : q = r
          · subst qr
            simpa only [if_neg pq] using ab
          · rw [if_neg pq] at ab
            rw [if_neg qr] at bc
            have ends : p ≠ r := by
              rintro rfl
              exact pq (partLe?_antisymm ab bc)
            rw [if_neg ends]
            exact partLe?_trans ab bc

end KeyPart

section

variable {α : Type} {xs : List α}

/-- A stable sort asks for an order on the entries only: they are sorted as a type of their own. -/
theorem mergeSort_of_entries (le : α → α → Bool)
    (trans : ∀ a ∈ xs, ∀ b ∈ xs, ∀ c ∈ xs, le a b = true → le b c = true → le a c = true)
    (total : ∀ a ∈ xs, ∀ b ∈ xs, (le a b || le b a) = true) :
    (xs.mergeSort le).Pairwise (le · ·) ∧
      ∀ ys : List α, ys.Pairwise (le · ·) → ys.Sublist xs → ys.Sublist (xs.mergeSort le) := by
  let leIn : { a // a ∈ xs } → { a // a ∈ xs } → Bool := fun a b => le a.1 b.1
  have trans' (a b c : { a // a ∈ xs }) := trans a.1 a.2 b.1 b.2 c.1 c.2
  have total' (a b : { a // a ∈ xs }) := total a.1 a.2 b.1 b.2
  have same : (xs.attach.mergeSort leIn).map Subtype.val = xs.mergeSort le := by
    rw [List.map_mergeSort (s := le) fun _ _ _ _ => rfl, List.attach_map_subtype_val]
  rw [← same]
  constructor
  · rw [List.pairwise_map]
    exact List.pairwise_mergeSort trans' total' xs.attach
  · intro ys ordered sub
    rw [← List.attach_map_subtype_val xs, List.sublist_map_iff] at sub
    obtain ⟨zs, sub, rfl⟩ := sub
    rw [List.pairwise_map] at ordered
    exact (List.sublist_mergeSort trans' total' ordered sub).map Subtype.val

end

section

open KeyPart

variable {α : Type} {key : α → List KeyPart} {xs ys zs : List α}

/-- The entries that are equal for the order keep their places among each other. -/
theorem filter_eq_of_sublist_of_perm {p : α → Bool} (kept : (xs.filter p).Sublist ys)
    (perm : ys.Perm xs) : ys.filter p = xs.filter p := by
  have sub := kept.filter p
  rw [List.filter_filter] at sub
  simp only [Bool.and_self] at sub
  exact (sub.eq_of_length (perm.filter p).length_eq.symm).symm

/-- What sorting makes of entries that can be compared: the same entries in the order of their keys,
and those of each key in the order in which they stood. -/
theorem exists_sortByKey (comparable : ∀ a ∈ xs, ∀ b ∈ xs, (le? (key a) (key b)).isSome) :
    ∃ ys, sortByKey key xs = .ok ys ∧ ys.Perm xs
      ∧ ys.Pairwise (fun a b => le? (key a) (key b) = some true)
      ∧ ∀ k, ys.filter (key · = k) = xs.filter (key · = k) := by
  let le : α → α → Bool := fun a b => (le? (key a) (key b)).getD true
  have iff {a b : α} (ha : a ∈ xs) (hb : b ∈ xs) :
      le a b = true ↔ le? (key a) (key b) = some true := by
    obtain ⟨v, hv⟩ := Option.isSome_iff_exists.1 (comparable a ha b hb)
    simp [le, hv]
  obtain ⟨ordered, keeps⟩ := mergeSort_of_entries le
    (fun a ha b hb c hc ab bc =>
      (iff ha hc).2 (le?_trans ((iff ha hb).1 ab) ((iff hb hc).1 bc)))
    (fun a ha b hb => by
      rw [Bool.or_eq_true, iff ha hb, iff hb ha]
      exact le?_total (comparable a ha b hb))
  have perm := List.mergeSort_perm xs le
  refine ⟨xs.mergeSort le, ?_, perm, ?_, fun k => filter_eq_of_sublist_of_perm (keeps _ ?_ ?_) perm⟩
  · rw [sortByKey, if_pos (by simpa using comparable)]
  · exact ordered.imp_of_mem fun ha hb h =>
      (iff (perm.mem_iff.1 ha) (perm.mem_iff.1 hb)).1 h
  · rw [List.pairwise_filter]
    refine List.pairwise_of_forall fun a b ha hb => ?_
    simp [le, of_decide_eq_true ha, of_decide_eq_true hb, le?_refl]
  · exact List.filter_sublist

/-- Sorted entries are determined by those of each key. -/
theorem eq_of_filter_key_eq (ordered : ys.Pairwise fun a b => le? (key a) (key b) = some true)
    (ordered' : zs.Pairwise fun a b => le? (key a) (key b) = some true)
    (same : ∀ k, ys.filter (key · = k) = zs.filter (key · = k)) : ys = zs := by
  induction ys generalizing zs with
  | nil =>
    cases zs with
    | nil => rfl
    | cons b zs => simpa using same (key b)
  | cons a ys ih =>
    have mem_iff (c : α) : c ∈ a :: ys ↔ c ∈ zs := by
      have := congrArg (c ∈ ·) (same (key c))
      simpa using this
    cases zs with
    | nil => simpa using (mem_iff a).1 List.mem_cons_self
    | cons b zs =>
      -- each of the two heads is among the entries of the other list, so neither comes later
      have ab : le? (key a) (key b) = some true := by
        rcases List.mem_cons.1 ((mem_iff b).2 List.mem_cons_self) with rfl | hb
        · exact le?_refl _
        · exact List.rel_of_pairwise_cons ordered hb
      have ba : le? (key b) (key a) = some true := by
        rcases List.mem_cons.1 ((mem_iff a).1 List.mem_cons_self) with rfl | ha
        · exact le?_refl _
        · exact List.rel_of_pairwise_cons ordered' ha
      have keys : key a = key b := le?_antisymm ab ba
      have heads : a = b := by
        have := same (key a)
        rw [List.filter_cons_of_pos (by simp), List.filter_cons_of_pos (by simp [keys])] at this
        exact (List.cons.inj this).1
      subst heads
      refine congrArg (a :: ·) (ih ordered.of_cons ordered'.of_cons fun k => ?_)
      have := same k
      rw [List.filter_cons, List.filter_cons] at this
      split at this
      · exact (List.cons.inj this).2
      · exact this

end

theorem empty_le (s : String) : "" ≤ s := by
  intro h
  have below : s.toList < "".toList := h
  rw [String.toList_empty] at below
  exact List.not_lt_nil _ below

namespace Message

open KeyPart

/-- A message comes from a file: it is a text, or a report about the file by a check of some
series. -/
def IsFrom (file : String) : Message → Prop
  | text _ => True
  | report r about => about = some file ∧ r.code.series ≠ ""

variable {m n : Message} {file file' : String} {by_ : SortKey}

theorem exists_text_of_isReport_eq_false (h : m.isReport = false) : ∃ t, m = text t := by
  cases m with
  | text t => exact ⟨t, rfl⟩
  | report r about => cases h

/-- The key of a report starts with a text that is not empty. -/
theorem IsFrom.key_eq_cons (h : m.IsFrom file) (named : file ≠ "") (isReport : m.isReport)
    (by_ : SortKey) : ∃ first rest, m.key by_ = .text first :: rest ∧ first ≠ "" := by
  cases m with
  | text t => cases isReport
  | report r about =>
    obtain ⟨rfl, series⟩ := h
    cases by_ with
    | filename => exact ⟨file, _, rfl, named⟩
    | error => exact ⟨r.code.series, _, rfl, series⟩

theorem le?_key_texts (s t : String) (by_ : SortKey) :
    (le? ((text s).key by_) ((text t).key by_)).isSome := by
  simp only [key, le?_cons, partLe?, if_true, apply_ite Option.isSome]
  simp [le?]

/-- The keys of reports have texts and numbers at the same places. -/
theorem le?_key_reports (hm : m.isReport) (hn : n.isReport) (by_ : SortKey) :
    (le? (m.key by_) (n.key by_)).isSome := by
  cases m <;> cases n <;> cases hm <;> cases hn
  cases by_ <;> simp only [key, List.cons_append, List.nil_append, le?_cons, partLe?,
    apply_ite Option.isSome] <;> simp [le?]

/-- Texts come before reports. -/
theorem IsFrom.le?_text (h : m.IsFrom file) (named : file ≠ "") (isReport : m.isReport) (t : String)
    (by_ : SortKey) : le? ((text t).key by_) (m.key by_) = some true
      ∧ le? (m.key by_) ((text t).key by_) = some false := by
  obtain ⟨first, rest, hkey, filled⟩ := h.key_eq_cons named isReport by_
  have before : ¬ first ≤ "" := fun h => filled (String.le_antisymm h (empty_le first))
  rw [hkey]
  simp [key, le?_cons, partLe?, filled, Ne.symm filled, empty_le, before]

theorem IsFrom.isSome_le?_key (hm : m.IsFrom file) (hn : n.IsFrom file') (named : file ≠ "")
    (named' : file' ≠ "") (by_ : SortKey) : (le? (m.key by_) (n.key by_)).isSome := by
  cases hm' : m.isReport with
  | false =>
    obtain ⟨s, rfl⟩ := exists_text_of_isReport_eq_false hm'
    cases hn' : n.isReport with
    | false =>
      obtain ⟨t, rfl⟩ := exists_text_of_isReport_eq_false hn'
      exact le?_key_texts s t by_
    | true => rw [(hn.le?_text named' hn' s by_).1, Option.isSome_some]
  | true =>
    cases hn' : n.isReport with
    | false =>
      obtain ⟨t, rfl⟩ := exists_text_of_isReport_eq_false hn'
      rw [(hm.le?_text named hm' t by_).2, Option.isSome_some]
    | true => exact le?_key_reports hm' hn' by_

/-- A key of a report tells that it is one, and of which file. -/
theorem IsFrom.file_eq_of_key_eq (hm : m.IsFrom file) (hn : n.IsFrom file') (named : file ≠ "")
    (isReport : m.isReport) (same : n.key by_ = m.key by_) : n.isReport ∧ file' = file := by
  cases n with
  | text t =>
    obtain ⟨first, rest, hkey, filled⟩ := hm.key_eq_cons named isReport by_
    rw [hkey, key] at same
    simp only [List.cons.injEq, KeyPart.text.injEq] at same
    exact absurd same.1.symm filled
  | report r about =>
    cases m with
    | text t => cases isReport
    | report r' about' =>
      obtain ⟨rfl, -⟩ := hm
      obtain ⟨rfl, -⟩ := hn
      refine ⟨rfl, ?_⟩
      cases by_ <;> simp_all [key]

end Message

/-- What is found in one file, in the order in which it is found. -/
structure Emission where
  file : String
  messages : List Message
  named : file ≠ ""
  own : ∀ m ∈ messages, m.IsFrom file

namespace Emission

open KeyPart

variable {files files' : List Emission} {e : Emission} {m : Message} {by_ : SortKey}

def all (files : List Emission) : List Message := files.flatMap (·.messages)

theorem mem_all : m ∈ all files ↔ ∃ e ∈ files, m ∈ e.messages := List.mem_flatMap

theorem isSome_le?_key (files : List Emission) (by_ : SortKey) :
    ∀ a ∈ all files, ∀ b ∈ all files, (le? (a.key by_) (b.key by_)).isSome := by
  intro a ha b hb
  obtain ⟨e, -, ha⟩ := mem_all.1 ha
  obtain ⟨e', -, hb⟩ := mem_all.1 hb
  exact (e.own a ha).isSome_le?_key (e'.own b hb) e.named e'.named by_

/-- Of all files, at most the one with the given name has something to give. -/
theorem flatMap_eq_of_only {f : Emission → List Message} (distinct : (files.map (·.file)).Nodup)
    (he : e ∈ files) (others : ∀ e' ∈ files, e'.file ≠ e.file → f e' = []) :
    files.flatMap f = f e := by
  induction files with
  | nil => cases he
  | cons first files ih =>
    rw [List.map_cons, List.nodup_cons] at distinct
    rw [List.flatMap_cons]
    rcases List.mem_cons.1 he with rfl | he
    · have rest : files.flatMap f = [] := by
        rw [List.flatMap_eq_nil_iff]
        intro e' he'
        refine others e' (List.mem_cons_of_mem _ he') fun same => distinct.1 ?_
        rw [← same]
        exact List.mem_map_of_mem he'
      rw [rest, List.append_nil]
    · have differs : first.file ≠ e.file := fun same =>
        distinct.1 (same ▸ List.mem_map_of_mem he)
      rw [others first List.mem_cons_self differs, List.nil_append]
      exact ih distinct.2 he fun e' he' => others e' (List.mem_cons_of_mem _ he')

/-- All messages with the key of a report come from the file of the report. -/
theorem filter_key_of_report (distinct : (files.map (·.file)).Nodup) (he : e ∈ files)
    (hm : m ∈ e.messages) (isReport : m.isReport) :
    (all files).filter (·.key by_ = m.key by_) = e.messages.filter (·.key by_ = m.key by_) := by
  rw [all, List.filter_flatMap]
  refine flatMap_eq_of_only distinct he fun e' _ differs => ?_
  rw [List.filter_eq_nil_iff]
  intro n hn same
  exact differs ((e.own m hm).file_eq_of_key_eq (e'.own n hn) e.named isReport
    (of_decide_eq_true same)).2

/-- What has a given key does not depend on the order of the files: reports of one key are from one
file, and texts of one key are the same text. -/
theorem filter_key_perm (distinct : (files.map (·.file)).Nodup) (perm : files'.Perm files)
    (k : List KeyPart) :
    (all files').filter (·.key by_ = k) = (all files).filter (·.key by_ = k) := by
  by_cases reported : ∃ e ∈ files, ∃ m ∈ e.messages, m.isReport ∧ m.key by_ = k
  · obtain ⟨e, he, m, hm, isReport, rfl⟩ := reported
    have distinct' : (files'.map (·.file)).Nodup := (perm.map _).nodup_iff.2 distinct
    rw [filter_key_of_report distinct he hm isReport,
      filter_key_of_report distinct' (perm.mem_iff.2 he) hm isReport]
  · have perm' := (perm.flatMap_right (·.messages)).filter (·.key by_ = k)
    have isText (n : Message) (hn : n ∈ (all files).filter (·.key by_ = k)) :
        ∃ t, n = .text t ∧ k = [.text "", .text t] := by
      simp only [List.mem_filter, mem_all, decide_eq_true_eq] at hn
      obtain ⟨⟨e, he, hn⟩, rfl⟩ := hn
      have noReport : n.isReport = false := by
        by_contra isReport
        exact reported ⟨e, he, n, hn, by simpa using isReport, rfl⟩
      obtain ⟨t, rfl⟩ := Message.exists_text_of_isReport_eq_false noReport
      exact ⟨t, rfl, rfl⟩
    refine List.Perm.eq_of_pairwise (fun a b ha hb (_ : True) (_ : True) => ?_)
      (List.pairwise_of_forall fun _ _ => trivial)
      (List.pairwise_of_forall fun _ _ => trivial) perm'
    obtain ⟨s, rfl, hs⟩ := isText a (perm'.mem_iff.1 ha)
    obtain ⟨t, rfl, ht⟩ := isText b hb
    rw [hs] at ht
    simpa using ht

/-- The messages of files with different names can always be sorted. The result holds the same
messages in the order of their keys, texts before reports; those of one key that are about a file
stand as they were found in it; and it does not depend on the order of the files. -/
theorem sortMessages_of_files (by_ : SortKey) {files : List Emission}
    (distinct : (files.map (·.file)).Nodup) :
    (∀ a ∈ all files, ∀ b ∈ all files, (le? (a.key by_) (b.key by_)).isSome) ∧
    ∃ sorted, sortMessages by_ (all files) = .ok sorted
      ∧ sorted.Perm (all files)
      ∧ sorted.Pairwise (fun a b => le? (a.key by_) (b.key by_) = some true)
      ∧ sorted.Pairwise (fun a b => a.isReport → b.isReport)
      ∧ (∀ e ∈ files, ∀ m ∈ e.messages, m.isReport →
        sorted.filter (·.key by_ = m.key by_) = e.messages.filter (·.key by_ = m.key by_))
      ∧ ∀ files', files'.Perm files → sortMessages by_ (all files') = .ok sorted := by
  obtain ⟨sorted, done, perm, ordered, stable⟩ := exists_sortByKey (isSome_le?_key files by_)
  refine ⟨isSome_le?_key files by_, sorted, done, perm, ordered, ?_, ?_, ?_⟩
  · refine ordered.imp_of_mem fun {a b} ha hb le isReport => ?_
    obtain ⟨e, -, ha⟩ := mem_all.1 (perm.mem_iff.1 ha)
    by_contra noReport
    obtain ⟨t, rfl⟩ := Message.exists_text_of_isReport_eq_false (by simpa using noReport)
    rw [((e.own a ha).le?_text e.named isReport t by_).2] at le
    cases le
  · intro e he m hm isReport
    rw [stable, filter_key_of_report distinct he hm isReport]
  · intro files' again
    obtain ⟨sorted', done', -, ordered', stable'⟩ := exists_sortByKey (isSome_le?_key files' by_)
    have same : sorted' = sorted := eq_of_filter_key_eq ordered' ordered fun k => by
      rw [stable', stable, filter_key_perm distinct again]
    exact same ▸ done'

/-- Two reports of one key in a file, a dump of its tree, and a report in another file. -/
theorem sortMessages_of_files_tie :
    let found (message : String) : Report := ⟨⟨"FURB", 100⟩, [], ⟨1, 0, none, none, message⟩⟩
    let late : Message := .report (found "y") (some "b.py")
    let later : Message := .report (found "x") (some "b.py")
    let b : Emission := ⟨"b.py", [.text "MypyFile:1()", late, later], by decide,
      by simp [Message.IsFrom, late, later, found]⟩
    let a : Emission := ⟨"a.py", [.report (found "z") (some "a.py")], by decide,
      by simp [Message.IsFrom, found]⟩
    late.key .error = later.key .error ∧ ∃ sorted, sortMessages .error (all [b, a]) = .ok sorted
      ∧ sortMessages .error (all [a, b]) = .ok sorted
      ∧ sorted.filter (·.key .error = late.key .error) = [late, later] := by
  intro found late later b a
  obtain ⟨-, sorted, done, -, -, -, stable, again⟩ :=
    sortMessages_of_files .error (show ([b, a].map (·.file)).Nodup by decide)
  refine ⟨rfl, sorted, done, again [a, b] (List.Perm.swap b a []), ?_⟩
  exact stable b List.mem_cons_self late (by decide) rfl

end Emission

end IdiomLint
