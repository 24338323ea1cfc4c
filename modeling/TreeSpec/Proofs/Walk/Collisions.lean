import Mathlib.Data.Finset.Card
import Mathlib.Data.Finset.Image
import TreeSpec.Proofs.Service.Completion
import TreeSpec.Proofs.Walk.Steps

/-!
# Keys with the same text

Of several keys of a mapping with one text the last one counts. Each of the others is named in one
warning, together with the next key that has its text. So no entry gets lost in silence, as there
are as many warnings as entries that do not count.
-/

namespace TreeSpec

set_option autoImplicit false

/-! ## Repeats of a text -/

section Repeats

/-- The greatest number below the bound for which the condition holds. -/
def latestBelow? (p : Nat → Bool) : Nat → Option Nat
  | 0 => none
  | n + 1 => if p n then some n else latestBelow? p n

/-- The places below the bound where a text stands again, each after the latest place where it stood
before. -/
def repeats (text : Nat → Text) (n : Nat) : List (Nat × Nat) :=
  (List.range n).filterMap fun j => (latestBelow? (fun i => text i = text j) j).map (·, j)

variable {p : Nat → Bool} {text : Nat → Text} {i j n : Nat}

theorem latestBelow?_eq_some_iff :
    latestBelow? p n = some i ↔ i < n ∧ p i = true ∧ ∀ k, i < k → k < n → p k = false := by
  induction n with
  | zero => simp [latestBelow?]
  | succ n ih =>
    unfold latestBelow?
    split
    · next hn =>
      constructor
      · intro h
        cases h
        exact ⟨Nat.lt_succ_self _, hn, fun k hlow hhigh => absurd hhigh (by omega)⟩
      · intro h
        obtain ⟨hi, -, hnone⟩ := h
        rcases Nat.lt_succ_iff_lt_or_eq.mp hi with hi | rfl
        · rw [hnone n hi (Nat.lt_succ_self n)] at hn
          cases hn
        · rfl
    · next hn =>
      rw [ih]
      constructor
      · intro h
        refine ⟨Nat.lt_succ_of_lt h.1, h.2.1, fun k hlow hhigh => ?_⟩
        rcases Nat.lt_succ_iff_lt_or_eq.mp hhigh with hhigh | rfl
        · exact h.2.2 k hlow hhigh
        · exact Bool.eq_false_iff.mpr hn
      · intro h
        obtain ⟨hi, hp, hnone⟩ := h
        rcases Nat.lt_succ_iff_lt_or_eq.mp hi with hi | rfl
        · exact ⟨hi, hp, fun k hlow hhigh => hnone k hlow (Nat.lt_succ_of_lt hhigh)⟩
        · exact absurd hp hn

theorem latestBelow?_eq_none_iff : latestBelow? p n = none ↔ ∀ i < n, p i = false := by
  induction n with
  | zero => simp [latestBelow?]
  | succ n ih =>
    unfold latestBelow?
    split
    · next hn =>
      constructor
      · intro h
        cases h
      · intro h
        rw [h n (Nat.lt_succ_self n)] at hn
        cases hn
    · next hn => rw [ih, Nat.forall_lt_succ_right, and_iff_left (Bool.eq_false_iff.mpr hn)]

/-- Two places are a repeat if the same text stands there and nowhere between them. -/
theorem mem_repeats_iff : (i, j) ∈ repeats text n ↔
    i < j ∧ j < n ∧ text i = text j ∧ ∀ k, i < k → k < j → text k ≠ text i := by
  have hmem :
      (i, j) ∈ repeats text n ↔ j < n ∧ latestBelow? (fun i => text i = text j) j = some i := by
    unfold repeats
    simp only [List.mem_filterMap, List.mem_range, Option.map_eq_some_iff, Prod.mk.injEq]
    constructor
    · intro h
      obtain ⟨_, hj, _, hi, rfl, rfl⟩ := h
      exact ⟨hj, hi⟩
    · intro h
      exact ⟨j, h.1, i, h.2, rfl, rfl⟩
  rw [hmem, latestBelow?_eq_some_iff]
  simp only [decide_eq_true_eq, decide_eq_false_iff_not]
  constructor
  · intro h
    obtain ⟨hj, hi, htext, hnone⟩ := h
    exact ⟨hi, hj, htext, fun k hlow hhigh => htext ▸ hnone k hlow hhigh⟩
  · intro h
    obtain ⟨hi, hj, htext, hnone⟩ := h
    exact ⟨hj, hi, htext, fun k hlow hhigh => htext ▸ hnone k hlow hhigh⟩

theorem repeats_succ : repeats text (n + 1) =
    repeats text n ++ ((latestBelow? (fun i => text i = text n) n).map (·, n)).toList := by
  unfold repeats
  rw [List.range_succ, List.filterMap_append, List.filterMap_cons, List.filterMap_nil]
  cases latestBelow? (fun i => text i = text n) n <;> rfl

theorem pairwise_repeats (text : Nat → Text) (n : Nat) :
    (repeats text n).Pairwise fun c d => c.2 < d.2 := by
  unfold repeats
  apply List.Pairwise.filterMap (R := (· < ·)) _ _ List.pairwise_lt_range
  intro j j' hlt c hc d hd
  obtain ⟨_, -, rfl⟩ := Option.map_eq_some_iff.mp hc
  obtain ⟨_, -, rfl⟩ := Option.map_eq_some_iff.mp hd
  exact hlt

/-- There are as many repeats as places less the different texts there. -/
theorem length_repeats (text : Nat → Text) (n : Nat) :
    (repeats text n).length + ((Finset.range n).image text).card = n := by
  induction n with
  | zero => rfl
  | succ n ih =>
    rw [repeats_succ, List.length_append, Finset.range_add_one, Finset.image_insert]
    cases hlatest : latestBelow? (fun i => text i = text n) n with
    -- Either there is one text more at the new place, or one repeat more.
    | none =>
      have hnew : text n ∉ (Finset.range n).image text := by
        intro hmem
        obtain ⟨i, hi, heq⟩ := Finset.mem_image.mp hmem
        exact absurd heq
          (of_decide_eq_false (latestBelow?_eq_none_iff.mp hlatest i (Finset.mem_range.mp hi)))
      rw [Finset.card_insert_of_notMem hnew, Option.map_none, Option.toList_none, List.length_nil]
      omega
    | some i =>
      obtain ⟨hi, heq, -⟩ := latestBelow?_eq_some_iff.mp hlatest
      have hold : text n ∈ (Finset.range n).image text :=
        Finset.mem_image.mpr ⟨i, Finset.mem_range.mpr hi, of_decide_eq_true heq⟩
      rw [Finset.insert_eq_of_mem hold, Option.map_some, Option.toList_some, List.length_singleton]
      omega

/-- A place after which its text stands again is the earlier one of just one repeat. -/
theorem existsUnique_repeat (hij : i < j) (hj : j < n) (htext : text i = text j) :
    ∃! c, c ∈ repeats text n ∧ c.1 = i := by
  -- The later place is the first one after `i` with its text.
  have hlater : ∃ k, i < k ∧ k < n ∧ text i = text k := ⟨j, hij, hj, htext⟩
  obtain ⟨hlow, hhigh, heq⟩ := Nat.find_spec hlater
  refine ⟨(i, Nat.find hlater), ⟨mem_repeats_iff.mpr ⟨hlow, hhigh, heq, ?_⟩, rfl⟩, ?_⟩
  · intro k hik hk hsame
    exact Nat.find_min hlater hk ⟨hik, Nat.lt_trans hk hhigh, hsame.symm⟩
  · rintro ⟨_, k⟩ ⟨hmem, rfl⟩
    obtain ⟨hik, hk, hsame, hnone⟩ := mem_repeats_iff.mp hmem
    -- Neither of the two places can come before the other one.
    rcases Nat.lt_trichotomy k (Nat.find hlater) with hlt | hsame' | hlt
    · exact absurd ⟨hik, hk, hsame⟩ (Nat.find_min hlater hlt)
    · rw [hsame']
    · exact absurd heq.symm (hnone _ hlow hlt)

end Repeats

/-! ## Warnings of a mapping -/

namespace Value

def keyAt (entries : List (Scalar × Value)) (i : Nat) : Scalar :=
  ((entries[i]?).map (·.1)).getD .null

def textAt (entries : List (Scalar × Value)) (i : Nat) : Text := (scalar (keyAt entries i)).textOf

/-- The places of an entry that does not count and of the next entry with the same text. -/
def collisions (entries : List (Scalar × Value)) : List (Nat × Nat) :=
  repeats (textAt entries) entries.length

def warning (path : Path) (entries : List (Scalar × Value)) (c : Nat × Nat) : Notice :=
  .sameText (keyAt entries c.1) (keyAt entries c.2) (textAt entries c.2) path

/-- The entries before the first one whose key has no text. -/
def read (entries : List (Scalar × Value)) : List (Scalar × Value) :=
  entries.takeWhile fun e => !e.1.isTooLong

section Entries

variable (path : Path) {key : Scalar} {v : Value} {before rest entries : List (Scalar × Value)}
  {text : Text}

theorem textOf_of_toText (h : key.toText = .ok text) : (scalar key).textOf = text := by
  have hdescribe : (scalar key).describe = .ok text := h
  rw [textOf, hdescribe]
  rfl

theorem keyAt_length (before rest : List (Scalar × Value)) (key : Scalar) (v : Value) :
    keyAt (before ++ (key, v) :: rest) before.length = key := by
  rw [keyAt, List.getElem?_append_right (Nat.le_refl _), Nat.sub_self]
  rfl

theorem trace_entriesByText_cons (htext : key.toText = .ok text) (seen : Dictionary Scalar) :
    (entriesByText path seen ((key, v) :: rest)).trace =
      (seen.get? text).toList.map (fun earlier => .notice (.sameText earlier key text path)) ++
        (entriesByText path (seen.put text key) rest).trace := by
  have hmap : ∀ x : Effect Event (List (Text × Value)),
      (x >>= fun more => pure ((text, v) :: more)).trace = x.trace := by
    intro x
    cases hresult : x.result with
    | error e => rw [Effect.bind_of_error hresult]
    | ok more => rw [Effect.bind_of_ok hresult]; exact List.append_nil _
  rw [entriesByText, Effect.bind_of_ok (a := text) (by exact htext), Effect.emit_bind]
  change List.map _ _ ++ (entriesByText path (seen.put text key) rest >>=
    fun more => pure ((text, v) :: more)).trace = _
  rw [hmap]

theorem trace_entriesByText {seen : Dictionary Scalar}
    (hseen : ∀ text, seen.get? text =
      (latestBelow? (fun i => textAt (before ++ rest) i = text) before.length).map
      (keyAt (before ++ rest)))
    (hrest : ∀ e ∈ rest, e.1.isTooLong = false) :
    -- The warnings about the entries before, and then those about the rest.
    (repeats (textAt (before ++ rest)) before.length).map
    (fun c => Event.notice (warning path (before ++ rest) c)) ++
        (entriesByText path seen rest).trace =
      (collisions (before ++ rest)).map fun c => .notice (warning path (before ++ rest) c) := by
  induction rest generalizing before seen with
  | nil =>
    rw [List.append_nil]
    exact List.append_nil _
  | cons e rest ih =>
    obtain ⟨key, v⟩ := e
    obtain ⟨hkey, hrest⟩ := List.forall_mem_cons.mp hrest
    obtain ⟨text, htext⟩ := key.exists_toText hkey
    have hplace : keyAt (before ++ (key, v) :: rest) before.length = key :=
      keyAt_length before rest key v
    have htextAt : textAt (before ++ (key, v) :: rest) before.length = text := by
      rw [textAt, hplace, textOf_of_toText htext]
    have hlength : (before ++ [(key, v)]).length = before.length + 1 := List.length_append
    -- With the next key put in, `seen` still has the latest key of each text.
    have hseen' : ∀ other, (seen.put text key).get? other =
        (latestBelow? (fun i => textAt ((before ++ [(key, v)]) ++ rest) i = other)
          (before ++ [(key, v)]).length).map
          (keyAt ((before ++ [(key, v)]) ++ rest)) := by
      intro other
      rw [← List.append_cons, hlength, latestBelow?, htextAt, Dictionary.get?_put, hseen]
      by_cases hother : other = text
      · simp only [hother, decide_true, if_true, Option.map_some, hplace]
      · simp only [hother, Ne.symm hother, decide_false, if_false, Bool.false_eq_true]
    have hnext := ih hseen' hrest
    rw [← List.append_cons, hlength, repeats_succ, List.map_append, List.append_assoc] at hnext
    rw [← hnext]
    congr 1
    rw [trace_entriesByText_cons path htext, hseen, htextAt]
    congr 1
    cases latestBelow? (fun i => textAt (before ++ (key, v) :: rest) i = text) before.length with
    | none => rfl
    | some i =>
      simp only [Option.map_some, Option.toList_some, List.map_cons, List.map_nil, warning,
        hplace, htextAt]

theorem trace_entriesByText_read (seen : Dictionary Scalar) (entries : List (Scalar × Value)) :
    (entriesByText path seen entries).trace = (entriesByText path seen (read entries)).trace := by
  induction entries generalizing seen with
  | nil => rfl
  | cons e rest ih =>
    obtain ⟨key, v⟩ := e
    rw [read, List.takeWhile_cons]
    cases hkey : key.isTooLong with
    | true =>
      rw [entriesByText, Effect.bind_of_error (e := .integerTooLong)
        (by exact key.toText_of_isTooLong hkey)]
      rfl
    | false =>
      obtain ⟨text, htext⟩ := key.exists_toText hkey
      rw [Bool.not_false, if_pos rfl, trace_entriesByText_cons path htext,
        trace_entriesByText_cons path htext, ih, read]

theorem isTooLong_of_mem_read {e : Scalar × Value} (h : e ∈ read entries) :
    e.1.isTooLong = false := by
  have hkey := List.mem_takeWhile_imp (p := fun e : Scalar × Value => !e.1.isTooLong) h
  rwa [Bool.not_eq_true'] at hkey

theorem read_of_readable (h : ∀ e ∈ entries, e.1.isTooLong = false) : read entries = entries :=
  List.takeWhile_eq_self_iff.mpr fun e he => by rw [h e he, Bool.not_false]

/-- Every key of a text that was there is reported with the latest key before it that has the
text. -/
theorem trace_entriesByText_nil (entries : List (Scalar × Value)) :
    (entriesByText path [] entries).trace =
    (collisions (read entries)).map fun c => .notice (warning path (read entries) c) := by
  rw [trace_entriesByText_read]
  exact @trace_entriesByText path [] (read entries) [] (fun _ => rfl) fun _ => isTooLong_of_mem_read

end Entries

end Value

/-! ## What the warnings say -/

namespace Value

def keyText (e : Scalar × Value) : Text := (scalar e.1).textOf

/-- With these warnings no entry of a mapping in which no text is a key twice is left out of
account. -/
structure Accounts (path : Path) (entries : List (Scalar × Value)) (warnings : List Notice) :
    Prop where
  named : warnings = (collisions entries).map (warning path entries)
  order : (collisions entries).Pairwise fun c d => c.2 < d.2
  /-- The later key is the next one with the text of the earlier key. -/
  next : ∀ i j, (i, j) ∈ collisions entries ↔ i < j ∧ j < entries.length ∧
    textAt entries i = textAt entries j ∧ ∀ k, i < k → k < j → textAt entries k ≠ textAt entries i
  /-- An entry that a later one takes the place of is named once as the earlier one. -/
  once : ∀ i j, i < j → j < entries.length → textAt entries i = textAt entries j →
    ∃! c, c ∈ collisions entries ∧ c.1 = i
  count : warnings.length + (entries.map keyText).toFinset.card = entries.length
  distinct : (entries.map keyText).Nodup → warnings = []
  texts : (∀ e ∈ entries, ∃ text, e.1 = .text text) → warnings = []

variable {entries : List (Scalar × Value)}

/-- No text is a key twice. Keys of other kinds may look alike. -/
def TextsOnce (entries : List (Scalar × Value)) : Prop := ((keyedByText entries).map (·.1)).Nodup

instance (entries : List (Scalar × Value)) : Decidable (TextsOnce entries) :=
  inferInstanceAs (Decidable ((keyedByText entries).map (·.1)).Nodup)

theorem all_isText_iff :
    entries.all (·.1.isText) = true ↔ ∀ e ∈ entries, ∃ text, e.1 = .text text := by
  rw [List.all_eq_true]
  refine forall₂_congr fun e _ => ?_
  cases e.1 <;> simp [Scalar.isText]

theorem image_textAt (entries : List (Scalar × Value)) :
    (Finset.range entries.length).image (textAt entries) = (entries.map keyText).toFinset := by
  ext text
  rw [Finset.mem_image, List.mem_toFinset, List.mem_map]
  have htextAt {i : Nat} (hi : i < entries.length) : textAt entries i = keyText entries[i] := by
    rw [textAt, keyAt, List.getElem?_eq_getElem hi]
    rfl
  constructor
  · intro h
    obtain ⟨i, hi, rfl⟩ := h
    have hlt := Finset.mem_range.mp hi
    exact ⟨entries[i], List.getElem_mem hlt, (htextAt hlt).symm⟩
  · intro h
    obtain ⟨e, he, rfl⟩ := h
    obtain ⟨i, hi, rfl⟩ := List.mem_iff_getElem.mp he
    exact ⟨i, Finset.mem_range.mpr hi, htextAt hi⟩

/-- Where all keys are texts, these are the texts of the entries. -/
theorem map_keyedByText (htexts : entries.all (·.1.isText) = true) :
    (keyedByText entries).map (·.1) = entries.map keyText := by
  induction entries with
  | nil => rfl
  | cons e rest ih =>
    obtain ⟨key, v⟩ := e
    obtain ⟨hkey, hrest⟩ := (Bool.and_eq_true ..).mp htexts
    cases key with
    | text t => exact congrArg (t :: ·) (ih hrest)
    | bool | int | float | null | foreign => cases hkey

theorem collisions_of_nodup (h : (entries.map keyText).Nodup) : collisions entries = [] := by
  have hcount := length_repeats (textAt entries) entries.length
  rw [image_textAt, List.toFinset_card_of_nodup h, List.length_map] at hcount
  exact List.length_eq_zero_iff.mp (by unfold collisions; omega)

/-- Reading keys that are texts as other keys are read gives no warning either. -/
theorem collisions_of_texts (htexts : entries.all (·.1.isText) = true) (h : TextsOnce entries) :
    collisions entries = [] :=
  collisions_of_nodup (map_keyedByText htexts ▸ h)

theorem accounts_collisions (path : Path) (h : TextsOnce entries) :
    Accounts path entries ((collisions entries).map (warning path entries)) := by
  have hcount := length_repeats (textAt entries) entries.length
  rw [image_textAt] at hcount
  exact {
    named := rfl
    order := pairwise_repeats _ _
    next := fun i j => mem_repeats_iff
    once := fun i j => existsUnique_repeat
    count := by rw [List.length_map]; exact hcount
    distinct := fun h => by rw [collisions_of_nodup h, List.map_nil]
    texts := fun htexts => by rw [collisions_of_texts (all_isText_iff.mpr htexts) h, List.map_nil] }

end Value

/-- The warnings about the keys of a mapping. There are none where all keys are texts. -/
def Value.warnings (path : Path) (entries : List (Scalar × Value)) : List Notice :=
  if entries.all (·.1.isText) then []
  else (collisions (read entries)).map (warning path (read entries))

theorem Value.mem_warnings {path : Path} {entries : List (Scalar × Value)} {n : Notice}
    (h : n ∈ warnings path entries) :
    ∃ earlier later text, n = .sameText earlier later text path := by
  unfold warnings at h
  split at h
  · cases h
  · obtain ⟨c, -, rfl⟩ := List.mem_map.mp h
    exact ⟨_, _, _, rfl⟩

def Encounter.warnings (e : Encounter) : List Notice :=
  match e.node, e.data with
  | .branch _, .mapping entries => Value.warnings e.path entries
  | _, _ => []

theorem Value.trace_textKeyed (path : Path) (entries : List (Scalar × Value)) :
    (textKeyed path entries).trace = (warnings path entries).map .notice := by
  unfold textKeyed warnings
  split
  · rfl
  · rw [trace_entriesByText_nil, List.map_map]
    rfl

/-- Both ways to read the entries warn of the same, and so of nothing where all keys are texts. -/
theorem Value.textKeyed_eq (path : Path) {entries : List (Scalar × Value)} (h : TextsOnce entries) :
    textKeyed path entries = entriesByText path [] entries := by
  unfold textKeyed
  split
  · next htexts =>
    have hread : read entries = entries := read_of_readable fun e he => by
      obtain ⟨text, htext⟩ := all_isText_iff.mp htexts e he
      rw [htext]
      rfl
    have htrace := trace_entriesByText_nil path entries
    rw [hread, collisions_of_texts htexts h] at htrace
    have hresult := result_entriesByText_of_texts path htexts []
    exact (congrArg₂ Effect.mk hresult htrace).symm
  · rfl

def Event.sameText? : Event → Option Notice
  | notice (.sameText earlier later text path) => some (.sameText earlier later text path)
  | _ => none

theorem Value.sameText_warnings (path : Path) (entries : List (Scalar × Value)) :
    ((warnings path entries).map Event.notice).filterMap Event.sameText? =
    warnings path entries := by
  rw [List.filterMap_map]
  refine (List.filterMap_congr fun n hn => ?_).trans List.filterMap_some
  obtain ⟨_, _, _, rfl⟩ := mem_warnings hn
  rfl

theorem Event.sameText?_of_isOfValue {e : Event} (h : e.isOfValue = true) : e.sameText? = none := by
  rcases e with c | n | e
  · rfl
  · cases n <;> first | rfl | cases h
  · rfl

section Walks

variable (s : Setting) (path : Path)

theorem Node.trace_enter (entries : List (Scalar × Value)) : (enter s path entries).trace =
    s.trace (.descending path) ++ (Value.warnings path entries).map .notice := by
  rw [enter, Effect.emit_bind, ← Value.trace_textKeyed]
  cases hresult : (Value.textKeyed path entries).result with
  | error e => rw [Effect.bind_of_error hresult]
  | ok found => rw [Effect.bind_of_ok hresult]; exact congrArg (_ ++ ·) (List.append_nil _)

theorem Encounter.trace_step_inside (children : List (Text × Node))
    (entries : List (Scalar × Value)) :
    (step s ⟨path, .branch children, .mapping entries⟩).trace =
    (Node.enter s path entries).trace := by
  rw [step_inside]
  cases hresult : (Node.enter s path entries).result with
  | error e => rw [Effect.bind_of_error hresult]
  | ok found =>
    rw [Effect.bind_of_ok hresult]
    exact List.append_nil _

theorem Encounter.sameText_visit (e : Encounter) :
    (e.visit s).trace.filterMap Event.sameText? = e.warnings := by
  cases e using Encounter.cases with
  | leaf path l data =>
    have hcompiled : (l.compiled s.registry).2.2.filterMap Event.sameText? = [] := by
      unfold Leaf.compiled
      split
      · rfl
      · simp only
        cases (l.compile s.registry).error <;> rfl
    have hcheck :=
      (Leaf.onlyOfValues_check s path l.spec (l.compiled s.registry).2.1
        data.orMissing).filterMap_trace
      fun _ => Event.sameText?_of_isOfValue
    simp only [visit, Leaf.visit, Effect.emit_bind, List.filterMap_append, hcompiled, hcheck]
    rfl
  | inside path children entries =>
    rw [visit_branch, trace_step_inside, Node.trace_enter, List.filterMap_append,
      s.filterMap_trace rfl, List.nil_append]
    exact Value.sameText_warnings path entries
  | outside path children data hdata =>
    rw [visit_branch, step_outside s path children hdata,
      (s.onlyOfValues_reportValue path _ _ _ _).filterMap_trace fun _ =>
        Event.sameText?_of_isOfValue]
    cases data with
    | mapping entries => exact absurd rfl (hdata entries)
    | missing | scalar | sequence => rfl

/-- The warnings of a walk about keys with the same text are those of the branches that it comes
to. -/
theorem Node.sameText_visit (n : Node) (data : Value) :
    (n.visit s path data).2.trace.filterMap Event.sameText? =
      (Encounter.met (n.encounters path data)).flatMap Encounter.warnings := by
  rw [trace_visit, List.filterMap_flatMap]
  exact List.flatMap_congr fun e _ => e.sameText_visit s

/-- Where all keys have texts, the warnings are given first and then the children are visited. -/
theorem Node.visit_of_readable {entries : List (Scalar × Value)}
    (h : ∀ e ∈ entries, e.1.isTooLong = false)
    (children : List (Text × Node)) : ((branch children).visit s path (.mapping entries)).2 = (do
      Effect.emit (s.trace (.descending path))
      Effect.emit ((Encounter.warnings ⟨path, branch children, .mapping entries⟩).map .notice)
      forM children fun c => (c.2.visit s (path ++ [c.1]) (Value.lastOf c.1 entries)).2) := by
  obtain ⟨found, hfound⟩ := enter_isOk s path h
  rw [visit_inside, Effect.bind_of_ok hfound, trace_enter, Effect.emit_bind, Effect.emit_bind,
    Encounter.warnings, List.append_assoc]

/-- Where a key has no text, no child is visited. -/
theorem Node.visit_of_not_readable {entries : List (Scalar × Value)} {e : Scalar × Value}
    (he : e ∈ entries)
    (h : e.1.isTooLong = true) (children : List (Text × Node)) :
    (branch children).visit s path (.mapping entries) =
      (branch children, ⟨.error .integerTooLong, (enter s path entries).trace⟩) := by
  have hfails := enter_fails s path he h
  simp only [visit, Value.orMissing, hfails]

/-- Nothing is reported of the data then. -/
theorem Validator.errors_validate_of_key (v : Validator) {children : List (Text × Node)}
    (hschema : v.schema = .branch children) {entries : List (Scalar × Value)} {e : Scalar × Value}
    (he : e ∈ entries) (h : e.1.isTooLong = true) :
    (v.validate (.mapping entries)).2.trace.filterMap Event.error? = [] := by
  have hwalk := Node.visit_of_not_readable v.setting [] he h children
  simp only [validate, hschema, hwalk]
  exact (Node.onlyNotices_enter v.setting [] entries).filterMap_trace fun _ => rfl

/-- The warnings of a walk about keys with the same text are those of the branches that it comes to.
At such a branch each child is visited with the last value for its name, and the warnings leave no
entry out of account unless a text is a key twice. This is so if all keys have texts; if one is an
integer that is too long, no child is visited. -/
theorem Node.no_entry_dropped_in_silence (s : Setting) :
    (∀ (n : Node) (path : Path) (data : Value),
      (n.visit s path data).2.trace.filterMap Event.sameText? =
      (Encounter.met (n.encounters path data)).flatMap Encounter.warnings) ∧
    ∀ (path : Path) (children : List (Text × Node)) (entries : List (Scalar × Value)),
      let warnings := Encounter.warnings ⟨path, branch children, .mapping entries⟩
      ((∀ e ∈ entries, e.1.isTooLong = false) →
        ((branch children).visit s path (.mapping entries)).2 = (do
          Effect.emit (s.trace (.descending path))
          Effect.emit (warnings.map .notice)
          forM children fun c => (c.2.visit s (path ++ [c.1]) (Value.lastOf c.1 entries)).2) ∧
        (Value.TextsOnce entries → Value.Accounts path entries warnings)) ∧
      ((∃ e ∈ entries, e.1.isTooLong = true) →
        (branch children).visit s path (.mapping entries) =
          (branch children, ⟨.error .integerTooLong,
            s.trace (.descending path) ++ warnings.map .notice⟩)) := by
  refine ⟨fun n path data => sameText_visit s path n data, ?_⟩
  intro path children entries warnings
  refine ⟨?_, ?_⟩
  · intro h
    refine ⟨visit_of_readable s path h children, ?_⟩
    intro honce
    have hwarnings : warnings = (Value.collisions entries).map (Value.warning path entries) := by
      simp only [warnings, Encounter.warnings, Value.warnings, Value.read_of_readable h]
      split
      · next htexts => rw [Value.collisions_of_texts htexts honce, List.map_nil]
      · rfl
    rw [hwarnings]
    exact Value.accounts_collisions path honce
  · rintro ⟨e, he, hlong⟩
    rw [visit_of_not_readable s path he hlong, trace_enter]
    rfl

/-- Three keys with one text, and another key between them. -/
theorem Node.warnings_of_three_keys :
    let s : Setting := ⟨.new 0 [] [], false⟩
    let one : Scalar := .foreign ⟨"Decimal", "1", "Decimal('1')"⟩
    let entries : List (Scalar × Value) :=
      [(.int 1, .missing), (.text "b", .missing), (.text "1", .missing), (one, .scalar (.text "x"))]
    ((branch [("1", leaf (.new "_"))]).visit s ["a"] (.mapping entries)).2.trace.filterMap
      Event.sameText? =
      [.sameText (.int 1) (.text "1") "1" ["a"], .sameText (.text "1") one "1" ["a"]] := by
  intro s one entries
  have hkeys : ∀ e ∈ entries, e.1.isTooLong = false := by
    simp only [entries, List.forall_mem_cons]
    exact ⟨by decide +kernel, rfl, rfl, rfl, nofun⟩
  obtain ⟨hwalk, hbranch⟩ := no_entry_dropped_in_silence s
  have honce : Value.TextsOnce entries := by decide
  have haccounts := ((hbranch ["a"] [("1", leaf (.new "_"))] entries).1 hkeys).2 honce
  have hcollisions : Value.collisions entries = [(0, 2), (2, 3)] := by decide +kernel
  have hmet :
      Encounter.met ((branch [("1", leaf (.new "_"))]).encounters ["a"] (.mapping entries)) =
      [⟨["a"], branch [("1", leaf (.new "_"))], .mapping entries⟩,
        ⟨["a", "1"], leaf (.new "_"), .scalar (.text "x")⟩] :=
    Encounter.met_of_all (by decide +kernel)
  have htext : Value.textAt entries 2 = "1" ∧ Value.textAt entries 3 = "1" := by decide +kernel
  rw [hwalk, hmet, List.flatMap_cons, haccounts.named, hcollisions]
  simp only [List.map_cons, List.map_nil, Value.warning, htext]
  rfl

/-- A child is not visited, though there is a value for it, where another key of the mapping is too
long. -/
theorem Node.child_not_visited_beside_long_key :
    let schema : Value := .mapping [(.text "a", .scalar (.text "int"))]
    let entries : List (Scalar × Value) :=
      [(.text "a", .scalar (.text "x")), (.int (Nat.pow 10 maxDigits), .scalar (.text "y"))]
    let child : Node := leaf (.new "int")
    ∃ v, Validator.new schema false (.new 0 (Builtin.types World.empty.probes) []) = .ok v ∧
      v.schema = branch [("a", child)] ∧
      (child.visit v.setting ["a"] (Value.lastOf "a" entries)).2.trace.filterMap Event.error? =
        [⟨.leaf, ["a"], "int", "x", ""⟩] ∧
      (v.validate (.mapping entries)).2.trace.filterMap Event.error? = [] := by
  intro schema entries child
  have hv : Validator.new schema false (.new 0 (Builtin.types World.empty.probes) []) = .ok _ := rfl
  have hlong : (Scalar.int (Nat.pow 10 maxDigits)).isTooLong = true :=
    Scalar.isTooLong_natCast (Nat.le_refl _)
  have hmem : (.int (Nat.pow 10 maxDigits), .scalar (.text "y")) ∈ entries :=
    List.mem_cons_of_mem _ List.mem_cons_self
  exact ⟨_, hv, rfl, by decide +kernel, Validator.errors_validate_of_key _ rfl hmem hlong⟩

end Walks

end TreeSpec
