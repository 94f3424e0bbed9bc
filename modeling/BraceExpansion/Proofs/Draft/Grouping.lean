import BraceExpansion.Proofs.Draft.Checked
import Mathlib.Data.List.SplitBy
import Mathlib.Data.List.TakeWhile

/-!
# Back to text is grouping

`WorkStack.demote` goes through the upper part of a stack once, with a literal that may still grow.
What becomes of the stack can be said without a pass.

**Grouping.**  `Entry.stretches` cuts the drafts into the longest stretches of text and the others
alone.  `Entry.grouped` puts one literal for each stretch of text, in its first slot, and
`Entry.released` are the other slots of the stretches.  From there on nothing is left to group
(`Entry.settled_grouped`, `Entry.Settled.grouped_eq`).

**The pass.**  A demotion over a stretch takes all of it up (`Demotion.foldl_stretch`), so over
several stretches it does what grouping says (`Demotion.groups_foldl`).

**The stack.**  So **`WorkStack.groups_demote`**: a demotion groups the upper part of a stack.  It
begins at the same place a second time, and finds nothing to group (`WorkStack.demote_demote`).
-/

namespace BraceExpansion

namespace Pool

variable {p : Pool} {id : Nat}

@[simp] lemma size_set (p : Pool) (id : Nat) (d : Draft) :
    (p.set id d).slots.size = p.slots.size := Array.size_setIfInBounds

/-- The last draft in a slot counts. -/
lemma set_set (p : Pool) (id : Nat) (d d' : Draft) : (p.set id d).set id d' = p.set id d' := by
  simp [set]

lemma ext_get {q : Pool} (hsize : p.slots.size = q.slots.size) (hget : ∀ j, p.get j = q.get j)
    (hfree : p.free = q.free) : p = q := by
  obtain ⟨slots, free⟩ := p
  obtain ⟨slots', free'⟩ := q
  obtain rfl : free = free' := hfree
  obtain rfl : slots = slots' := by
    refine Array.ext hsize ?_
    intro i hi hi'
    have hi_get := hget i
    simp only [get] at hi_get
    simpa [hi, hi'] using hi_get
  rfl

lemma set_get (h : id < p.slots.size) : p.set id (p.get id) = p := by
  simp [set, get, Array.setIfInBounds, h]

end Pool

/-- Whether a draft is text, or is if its block comes to nothing. -/
def Draft.isText (d : Draft) : Bool := d.foldable?.isSome

lemma Draft.isText_of_isLiteral {d : Draft} (h : d.isLiteral = true) : d.isText = true := by
  match d, h with
  | .leaf .literal text, _ => rfl

/-- A slot and the draft in it. -/
structure Entry where
  slot : Nat
  draft : Draft
  deriving DecidableEq

/-- The drafts of a stack in order, with their slots. -/
def WorkStack.entries (w : WorkStack) : List Entry :=
  w.items.toList.map fun id => ⟨id, w.pool.get id⟩

namespace Entry

variable {e : Entry} {es rest stretch more : List Entry}

/-! ## Grouping -/

/-- Drafts cut into the longest stretches of text, and the others alone. -/
def stretches (es : List Entry) : List (List Entry) :=
  es.splitBy fun a b => a.draft.isText && b.draft.isText

/-- The text of some drafts. -/
def text (es : List Entry) : Buffer :=
  (es.flatMap fun e => (e.draft.foldable?.getD #[]).toList).toArray

@[simp] lemma text_nil : text [] = #[] := rfl

lemma text_cons {bytes : Buffer} (h : e.draft.foldable? = some bytes) (rest : List Entry) :
    text (e :: rest) = bytes ++ text rest := by
  simp [text, h]

/-- A stretch of text as one literal, in the first slot; other drafts as they are. -/
def folded : List Entry → List Entry
  | [] => []
  | e :: rest =>
    if e.draft.isText then [⟨e.slot, .leaf .literal (text (e :: rest))⟩] else e :: rest

/-- Every stretch of text as one literal. -/
def grouped (es : List Entry) : List Entry := (stretches es).flatMap folded

/-- The slots of all stretches but for the first ones. -/
def released (es : List Entry) : List Nat := (stretches es).flatMap fun s => s.tail.map Entry.slot

lemma stretches_other (he : e.draft.isText = false) (rest : List Entry) :
    stretches (e :: rest) = [e] :: stretches rest := by
  have happend := List.splitBy_append (l := [e]) (m := rest)
    (r := fun a b : Entry => a.draft.isText && b.draft.isText) (by simp [he])
  exact happend

lemma stretches_stretch (he : e.draft.isText = true) (hstretch : ∀ s ∈ stretch, s.draft.isText = true)
    (hmore : ∀ m ∈ more.head?, m.draft.isText = false) :
    stretches (e :: (stretch ++ more)) = (e :: stretch) :: stretches more := by
  have hall : ∀ s ∈ e :: stretch, s.draft.isText = true := by
    simpa [he] using hstretch
  have hchain : (e :: stretch).IsChain fun a b => a.draft.isText && b.draft.isText := by
    refine List.Pairwise.isChain ?_
    refine List.pairwise_of_forall_mem_list ?_
    intro a ha b hb
    rw [hall a ha, hall b hb]
    rfl
  rw [stretches, ← List.cons_append, List.splitBy_append,
    List.splitBy_of_isChain (List.cons_ne_nil _ _) hchain]
  · rfl
  · intro x _ y hy
    rw [hmore y hy, Bool.and_false]

@[simp] lemma grouped_nil : grouped [] = [] := rfl

@[simp] lemma released_nil : released [] = [] := rfl

lemma grouped_other (he : e.draft.isText = false) (rest : List Entry) :
    grouped (e :: rest) = e :: grouped rest := by
  rw [grouped, stretches_other he, List.flatMap_cons, folded, he]
  rfl

lemma released_other (he : e.draft.isText = false) (rest : List Entry) :
    released (e :: rest) = released rest := by
  rw [released, stretches_other he]
  rfl

lemma grouped_stretch (he : e.draft.isText = true) (hstretch : ∀ s ∈ stretch, s.draft.isText = true)
    (hmore : ∀ m ∈ more.head?, m.draft.isText = false) :
    grouped (e :: (stretch ++ more))
      = ⟨e.slot, .leaf .literal (text (e :: stretch))⟩ :: grouped more := by
  rw [grouped, stretches_stretch he hstretch hmore, List.flatMap_cons, folded, he]
  rfl

lemma released_stretch (he : e.draft.isText = true)
    (hstretch : ∀ s ∈ stretch, s.draft.isText = true)
    (hmore : ∀ m ∈ more.head?, m.draft.isText = false) :
    released (e :: (stretch ++ more)) = stretch.map Entry.slot ++ released more := by
  rw [released, stretches_stretch he hstretch hmore]
  rfl

/-- Drafts are a stretch of text and drafts behind it that do not go on with it, or they begin with
one that is no text. -/
theorem stretch_induction {P : List Entry → Prop} (nil : P [])
    (other : ∀ e rest, e.draft.isText = false → P rest → P (e :: rest))
    (stretch : ∀ e stretch more, e.draft.isText = true →
      (∀ s ∈ stretch, s.draft.isText = true) → (∀ m ∈ more.head?, m.draft.isText = false) →
        P more → P (e :: (stretch ++ more))) (es : List Entry) : P es := by
  induction hn : es.length using Nat.strongRecOn generalizing es with
  | ind n ih =>
      cases es with
      | nil => exact nil
      | cons e rest =>
          rw [List.length_cons] at hn
          cases he : e.draft.isText with
          | false => exact other e rest he (ih rest.length (by omega) rest rfl)
          | true =>
              have hsplit := rest.takeWhile_append_dropWhile (p := fun s => s.draft.isText)
              have hlength := congrArg List.length hsplit
              have hmore := rest.head?_dropWhile_not fun s => s.draft.isText
              rw [List.length_append] at hlength
              rw [← hsplit]
              refine stretch e _ _ he ?_ ?_ (ih _ (by omega) _ rfl)
              · intro s hs
                exact List.mem_takeWhile_imp (p := fun s : Entry => s.draft.isText) hs
              intro m hm
              rw [Option.mem_def] at hm
              rwa [hm] at hmore

/-! ## Nothing left to group -/

/-- No text stands beside text, and all of it is literal. -/
structure Settled (es : List Entry) : Prop where
  apart : es.IsChain fun a b => a.draft.isText = true → b.draft.isText = false
  literal : ∀ e ∈ es, ∀ text, e.draft.foldable? = some text → e.draft = .leaf .literal text

/-- Behind a grouping there is text at the front exactly if there was before. -/
lemma isText_head?_grouped (es : List Entry) :
    (grouped es).head?.map (·.draft.isText) = es.head?.map (·.draft.isText) := by
  cases es using stretch_induction with
  | nil => rfl
  | other e rest he => rw [grouped_other he]; rfl
  | stretch e stretch more he hstretch hmore =>
      rw [grouped_stretch he hstretch hmore]
      exact congrArg some he.symm

lemma settled_cons_iff : Settled (e :: rest) ↔
    (e.draft.isText = true → ∀ x ∈ rest.head?, x.draft.isText = false) ∧
      (∀ text, e.draft.foldable? = some text → e.draft = .leaf .literal text) ∧ Settled rest := by
  constructor
  · rintro ⟨hapart, hliteral⟩
    rw [List.isChain_cons] at hapart
    rw [List.forall_mem_cons] at hliteral
    exact ⟨fun he x hx => hapart.1 x hx he, hliteral.1, hapart.2, hliteral.2⟩
  · rintro ⟨hhead, he, hapart, hliteral⟩
    refine ⟨List.isChain_cons.mpr ⟨fun x hx he => hhead he x hx, hapart⟩, ?_⟩
    exact List.forall_mem_cons.mpr ⟨he, hliteral⟩

lemma settled_nil : Settled [] := ⟨List.isChain_nil, by simp⟩

/-- **Behind a grouping nothing is left to group.** -/
theorem settled_grouped (es : List Entry) : Settled (grouped es) := by
  induction es using stretch_induction with
  | nil => exact settled_nil
  | other e rest he ih =>
      rw [grouped_other he]
      refine settled_cons_iff.mpr ⟨?_, ?_, ih⟩
      · intro htext
        rw [he] at htext
        cases htext
      · intro text htext
        rw [Draft.isText, htext] at he
        cases he
  | stretch e stretch more he hstretch hmore ih =>
      rw [grouped_stretch he hstretch hmore]
      refine settled_cons_iff.mpr ⟨?_, ?_, ih⟩
      · intro _ x hx
        have hhead := isText_head?_grouped more
        rw [hx, Option.map_some, eq_comm, Option.map_eq_some_iff] at hhead
        obtain ⟨m, hm, hsame⟩ := hhead
        rw [← hsame]
        exact hmore m hm
      · intro text htext
        exact congrArg (Draft.leaf .literal) (Option.some.inj htext)

/-- **Where nothing is left to group, everything stays.** -/
theorem Settled.grouped_eq (h : Settled es) : grouped es = es ∧ released es = [] := by
  induction es with
  | nil => exact ⟨rfl, rfl⟩
  | cons e rest ih =>
      obtain ⟨hhead, hliteral, hrest⟩ := settled_cons_iff.mp h
      obtain ⟨hgrouped, hreleased⟩ := ih hrest
      cases he : e.draft.isText with
      | false => rw [grouped_other he, released_other he, hgrouped, hreleased]; exact ⟨rfl, rfl⟩
      | true =>
          obtain ⟨text, htext⟩ := Option.isSome_iff_exists.mp he
          have hstretch : ∀ s ∈ ([] : List Entry), s.draft.isText = true := by simp
          have hsingle := grouped_stretch he hstretch (hhead he)
          have hnone := released_stretch he hstretch (hhead he)
          rw [List.nil_append] at hsingle hnone
          rw [hsingle, hnone, hgrouped, hreleased]
          refine ⟨?_, rfl⟩
          have hsame : Entry.text [e] = text := by simp [Entry.text, htext]
          rw [hsame, ← hliteral text htext]

lemma grouped_sublist (es : List Entry) :
    (grouped es).map Entry.slot |>.Sublist (es.map Entry.slot) := by
  induction es using stretch_induction with
  | nil => exact List.Sublist.refl _
  | other e rest he ih =>
      rw [grouped_other he]
      exact ih.cons_cons _
  | stretch e stretch more he hstretch hmore ih =>
      rw [grouped_stretch he hstretch hmore, List.map_cons, List.map_cons, List.map_append]
      exact (ih.trans (List.sublist_append_right _ _)).cons_cons _

end Entry

/-! ## The pass -/

namespace WorkStack

open Entry (grouped released stretch_induction)

namespace Demotion

variable {d d' : Demotion} {e : Entry} {es stretch : List Entry}

/-- A demotion has made what grouping makes of some drafts, and changed nothing else. -/
structure Groups (d : Demotion) (es : List Entry) (d' : Demotion) : Prop where
  kept_eq : d'.kept.toList = d.kept.toList ++ (grouped es).map Entry.slot
  get_eq : ∀ e ∈ grouped es, d'.pool.get e.slot = e.draft
  frame : ∀ j ∉ (grouped es).map Entry.slot, d'.pool.get j = d.pool.get j
  free_eq : d'.pool.free = (released es).reverse ++ d.pool.free
  size_eq : d'.pool.slots.size = d.pool.slots.size

variable {pool : Pool} {kept : Array Nat} {id first : Nat} {text before : Buffer}

lemma step_other (h : (pool.get id).foldable? = none) (run : Option Nat) :
    step ⟨pool, kept, run⟩ id = ⟨pool, kept.push id, none⟩ := by
  simp only [step, h]

lemma step_first (h : (pool.get id).foldable? = some text) :
    step ⟨pool, kept, none⟩ id = ⟨pool.set id (.leaf .literal text), kept.push id, some id⟩ := by
  simp only [step, h]

lemma step_more (h : (pool.get id).foldable? = some text) : step ⟨pool, kept, some first⟩ id
    = ⟨(pool.modify first (·.append text)).release id, kept, some first⟩ := by
  simp only [step, h]

/-- While a literal is growing, it takes up the text behind it. -/
lemma foldl_growing (hfirst : first < pool.slots.size) (hget : pool.get first = .leaf .literal before)
    (hnotMem : first ∉ stretch.map Entry.slot) (hholds : ∀ s ∈ stretch, pool.get s.slot = s.draft)
    (hstretch : ∀ s ∈ stretch, s.draft.isText = true) :
    (stretch.map Entry.slot).foldl step ⟨pool, kept, some first⟩
      = ⟨⟨(pool.set first (.leaf .literal (before ++ Entry.text stretch))).slots,
          (stretch.map Entry.slot).reverse ++ pool.free⟩, kept, some first⟩ := by
  induction stretch generalizing pool before with
  | nil =>
      rw [Entry.text_nil, Array.append_empty, ← hget, Pool.set_get hfirst]
      rfl
  | cons s stretch ih =>
      rw [List.map_cons, List.mem_cons, not_or] at hnotMem
      rw [List.forall_mem_cons] at hholds hstretch
      obtain ⟨text, htext⟩ := Option.isSome_iff_exists.mp hstretch.1
      have hgrown : pool.modify first (·.append text)
          = pool.set first (.leaf .literal (before ++ text)) := by
        rw [Pool.modify_eq_set hfirst, hget]
        rfl
      have hstep : step ⟨pool, kept, some first⟩ s.slot
          = ⟨(pool.set first (.leaf .literal (before ++ text))).release s.slot, kept, some first⟩ := by
        rw [step_more (hholds.1 ▸ htext), hgrown]
      have hfirst' : first
          < ((pool.set first (.leaf .literal (before ++ text))).release s.slot).slots.size := by
        rw [Pool.release, Pool.size_set]
        exact hfirst
      have hholds' : ∀ r ∈ stretch,
          (pool.set first (.leaf .literal (before ++ text))).get r.slot = r.draft := by
        intro r hr
        rw [Pool.get_set_of_ne, hholds.2 r hr]
        rintro rfl
        exact hnotMem.2 (List.mem_map_of_mem hr)
      rw [List.map_cons, List.foldl_cons, hstep,
        ih hfirst' (Pool.get_set_self hfirst _) hnotMem.2 hholds' hstretch.2,
        Entry.text_cons htext, ← Array.append_assoc]
      simp [Pool.release, Pool.set]

/-- A stretch of text becomes one literal in its first slot, and the other slots are free. -/
lemma foldl_stretch (hfirst : e.slot < pool.slots.size)
    (hholds : ∀ s ∈ e :: stretch, pool.get s.slot = s.draft)
    (hnodup : ((e :: stretch).map Entry.slot).Nodup)
    (hstretch : ∀ s ∈ e :: stretch, s.draft.isText = true) :
    ((e :: stretch).map Entry.slot).foldl step ⟨pool, kept, none⟩
      = ⟨⟨(pool.set e.slot (.leaf .literal (Entry.text (e :: stretch)))).slots,
          (stretch.map Entry.slot).reverse ++ pool.free⟩, kept.push e.slot, some e.slot⟩ := by
  rw [List.forall_mem_cons] at hholds hstretch
  rw [List.map_cons, List.nodup_cons] at hnodup
  obtain ⟨text, htext⟩ := Option.isSome_iff_exists.mp hstretch.1
  rw [List.map_cons, List.foldl_cons, step_first (hholds.1 ▸ htext),
    foldl_growing (by rwa [Pool.size_set]) (Pool.get_set_self hfirst _) hnodup.1 ?_ hstretch.2]
  · rw [Pool.set_set, Entry.text_cons htext]
    rfl
  · intro s hs
    rw [Pool.get_set_of_ne, hholds.2 s hs]
    rintro heq
    exact hnodup.1 (heq ▸ List.mem_map_of_mem hs)

/-- A demotion that has made one draft goes on with the rest. -/
lemma Groups.cons {more : List Entry} {freed : List Nat} {slot : Nat} {draft : Draft} {d₁ : Demotion}
    (h : d₁.Groups more d') (hgrouped : grouped es = ⟨slot, draft⟩ :: grouped more)
    (hreleased : released es = freed ++ released more) (hnotMem : slot ∉ more.map Entry.slot)
    (hkept : d₁.kept.toList = d.kept.toList ++ [slot]) (hget : d₁.pool.get slot = draft)
    (hframe : ∀ j ≠ slot, d₁.pool.get j = d.pool.get j)
    (hfree : d₁.pool.free = freed.reverse ++ d.pool.free)
    (hsize : d₁.pool.slots.size = d.pool.slots.size) : d.Groups es d' := by
  have hapart : slot ∉ (grouped more).map Entry.slot :=
    fun hmem => hnotMem ((Entry.grouped_sublist more).subset hmem)
  refine ⟨?_, ?_, ?_, ?_, h.size_eq.trans hsize⟩
  · rw [h.kept_eq, hkept, hgrouped, List.append_assoc]
    rfl
  · rw [hgrouped, List.forall_mem_cons]
    exact ⟨(h.frame _ hapart).trans hget, h.get_eq⟩
  · intro j hj
    rw [hgrouped, List.map_cons, List.mem_cons, not_or] at hj
    exact (h.frame j hj.2).trans (hframe j hj.1)
  · rw [h.free_eq, hfree, hreleased, List.reverse_append, List.append_assoc]

/-- **A demotion does what grouping says.** -/
theorem groups_foldl (hrun : d.run = none ∨ ∀ e ∈ es.head?, e.draft.isText = false)
    (hholds : ∀ e ∈ es, d.pool.get e.slot = e.draft) (hnodup : (es.map Entry.slot).Nodup)
    (hbound : ∀ e ∈ es, e.slot < d.pool.slots.size) :
    d.Groups es ((es.map Entry.slot).foldl step d) := by
  induction es using stretch_induction generalizing d with
  | nil => exact ⟨by simp, by simp, fun _ _ => rfl, by simp, rfl⟩
  | other e rest he ih =>
      obtain ⟨pool, kept, run⟩ := d
      rw [List.forall_mem_cons] at hholds hbound
      rw [List.map_cons, List.nodup_cons] at hnodup
      have hnone : (pool.get e.slot).foldable? = none := by
        rw [hholds.1]
        exact Option.not_isSome_iff_eq_none.mp (Bool.eq_false_iff.mp he)
      have hrest := ih (d := ⟨pool, kept.push e.slot, none⟩) (Or.inl rfl) hholds.2 hnodup.2 hbound.2
      rw [List.map_cons, List.foldl_cons, step_other hnone]
      exact hrest.cons (Entry.grouped_other he rest)
        ((Entry.released_other he rest).trans (List.nil_append _).symm) hnodup.1 Array.toList_push
        hholds.1 (fun _ _ => rfl) rfl rfl
  | stretch e stretch more he hstretch hmore ih =>
      obtain ⟨pool, kept, run⟩ := d
      obtain rfl : run = none := by
        refine hrun.resolve_right fun hhead => ?_
        rw [hhead e rfl] at he
        cases he
      rw [← List.cons_append] at hholds hnodup hbound
      rw [List.forall_mem_append] at hholds hbound
      rw [List.map_append, List.nodup_append] at hnodup
      obtain ⟨hnodup, hnodup', hapart⟩ := hnodup
      have hfirst := hbound.1 e List.mem_cons_self
      have hne : ∀ j ∈ more.map Entry.slot, e.slot ≠ j := hapart e.slot List.mem_cons_self
      rw [← List.cons_append (a := e), List.map_append, List.foldl_append,
        foldl_stretch hfirst hholds.1 hnodup (List.forall_mem_cons.mpr ⟨he, hstretch⟩)]
      -- what comes behind the stretch is still where it was
      have hrest := ih (d := ⟨⟨(pool.set e.slot (.leaf .literal (Entry.text (e :: stretch)))).slots,
          (stretch.map Entry.slot).reverse ++ pool.free⟩, kept.push e.slot, some e.slot⟩)
        (Or.inr hmore)
        (fun m hm => (Pool.get_set_of_ne (hne _ (List.mem_map_of_mem hm)) _).trans (hholds.2 m hm))
        hnodup'
        (fun m hm => Nat.lt_of_lt_of_eq (hbound.2 m hm) (Pool.size_set pool e.slot _).symm)
      exact hrest.cons (Entry.grouped_stretch he hstretch hmore)
        (Entry.released_stretch he hstretch hmore) (fun hmem => hne _ hmem rfl) Array.toList_push
        (Pool.get_set_self hfirst _) (fun j hj => Pool.get_set_of_ne (Ne.symm hj) _) rfl
        (Pool.size_set pool e.slot _)

end Demotion

/-! ## The stack -/

variable {w after : WorkStack} {offset start : Nat} {joinBelow : Bool}

@[simp] lemma map_slot_entries (w : WorkStack) : w.entries.map Entry.slot = w.items.toList := by
  simp [entries, Function.comp_def]

lemma get_of_mem_entries {e : Entry} (h : e ∈ w.entries) : w.pool.get e.slot = e.draft := by
  obtain ⟨id, -, rfl⟩ := List.mem_map.mp h
  rfl

lemma entries_getElem? {i : Nat} (hi : i < w.size) :
    ∃ e, w.entries[i]? = some e ∧ e.draft = w.get i := by
  have hitems : i < w.items.size := hi
  simp [entries, get, hitems]

lemma get_eq_of_entries {i : Nat} {e : Entry} (h : w.entries[i]? = some e) : w.get i = e.draft := by
  have hi : i < w.entries.length := (List.getElem?_eq_some_iff.mp h).1
  rw [entries, List.length_map, Array.length_toList] at hi
  obtain ⟨e', he', hget⟩ := entries_getElem? hi
  rw [← hget, Option.some.inj (he'.symm.trans h)]

/-- From a position on the drafts of a stack have been grouped, and the slots that this takes are
free. -/
structure Groups (w : WorkStack) (start : Nat) (after : WorkStack) : Prop where
  below : after.entries.take start = w.entries.take start
  above : after.entries.drop start = grouped (w.entries.drop start)
  free_eq : after.pool.free = (released (w.entries.drop start)).reverse ++ w.pool.free
  size_eq : after.pool.slots.size = w.pool.slots.size
  frame : ∀ j ∉ after.items.toList.drop start, after.pool.get j = w.pool.get j

lemma map_slot_drop_entries (w : WorkStack) (start : Nat) :
    (w.entries.drop start).map Entry.slot = w.items.toList.drop start := by
  rw [List.map_drop, map_slot_entries]

/-- A demotion of the upper part of a stack groups the stack. -/
lemma groups_of_demotion {done : Demotion} (hnodup : w.items.toList.Nodup) (hstart : start ≤ w.size)
    (hdone : Demotion.Groups ⟨w.pool, w.items.shrink start, none⟩ (w.entries.drop start) done) :
    w.Groups start ⟨done.pool, done.kept⟩ := by
  have hkept := hdone.kept_eq
  have hlower : (w.items.shrink start).toList = w.items.toList.take start := by simp
  rw [hlower] at hkept
  have hlength : (w.items.toList.take start).length = start := by
    rw [List.length_take, Array.length_toList]
    exact Nat.min_eq_left hstart
  refine ⟨?_, ?_, hdone.free_eq, hdone.size_eq, ?_⟩
  · rw [entries, entries, hkept, ← List.map_take, List.take_left' hlength, ← List.map_take]
    refine List.map_congr_left ?_
    intro id hid
    refine congrArg (Entry.mk id) (hdone.frame id ?_)
    intro hmem
    have habove := (Entry.grouped_sublist _).subset hmem
    rw [map_slot_drop_entries] at habove
    exact List.disjoint_take_drop hnodup (Nat.le_refl start) hid habove
  · rw [entries, hkept, ← List.map_drop, List.drop_left' hlength, List.map_map]
    conv_rhs => rw [← List.map_id (grouped _)]
    refine List.map_congr_left ?_
    intro e he
    exact congrArg (Entry.mk e.slot) (hdone.get_eq e he)
  · intro j hj
    refine hdone.frame j ?_
    rwa [hkept, List.drop_left' hlength] at hj

lemma foldl_extract (w : WorkStack) (start : Nat) (d : Demotion) :
    (w.items.extract start).foldl Demotion.step d
      = (w.items.toList.drop start).foldl Demotion.step d := by
  rw [← Array.foldl_toList, Array.toList_extract, List.extract_eq_take_drop,
    List.take_of_length_le (by simp)]

/-- **What `demote` does to a stack is grouping.** -/
theorem groups_demote (hnodup : w.items.toList.Nodup)
    (hbound : ∀ id ∈ w.items.toList, id < w.pool.slots.size)
    (hstart : w.demotionStart offset joinBelow ≤ w.size) :
    w.Groups (w.demotionStart offset joinBelow) (w.demote offset joinBelow) := by
  have hslots := w.map_slot_drop_entries (w.demotionStart offset joinBelow)
  have hholds : ∀ e ∈ w.entries.drop (w.demotionStart offset joinBelow),
      w.pool.get e.slot = e.draft :=
    fun e he => get_of_mem_entries (List.mem_of_mem_drop he)
  have hdone := Demotion.groups_foldl
    (d := ⟨w.pool, w.items.shrink (w.demotionStart offset joinBelow), none⟩) (Or.inl rfl) hholds
    (hslots ▸ hnodup.sublist (List.drop_sublist _ _))
    (fun e he => hbound _ (List.mem_of_mem_drop (hslots ▸ List.mem_map_of_mem he)))
  rw [hslots, ← foldl_extract] at hdone
  exact groups_of_demotion hnodup hstart hdone

/-! ## A second time -/

namespace Groups

/-- Grouping leaves drafts out. -/
lemma sublist_items (h : w.Groups start after) : after.items.toList.Sublist w.items.toList := by
  rw [← map_slot_entries, ← map_slot_entries, ← after.entries.take_append_drop start,
    ← w.entries.take_append_drop start, h.below, h.above, List.map_append, List.map_append]
  exact (List.Sublist.refl _).append (Entry.grouped_sublist _)

/-- A grouping of what has been grouped leaves it as it is. -/
lemma eq_of_grouped {again : WorkStack} (h : w.Groups start after)
    (hagain : after.Groups start again) : again = after := by
  obtain ⟨hsame, hnone⟩ := (Entry.settled_grouped (w.entries.drop start)).grouped_eq
  have hdrop : again.entries.drop start = after.entries.drop start := by
    rw [hagain.above, h.above, hsame]
  have hentries : again.entries = after.entries := by
    rw [← again.entries.take_append_drop start, hagain.below, hdrop, List.take_append_drop]
  have hitems : again.items = after.items := by
    rw [← Array.toList_inj, ← map_slot_entries, hentries, map_slot_entries]
  have hget : ∀ j, again.pool.get j = after.pool.get j := by
    intro j
    by_cases hj : j ∈ again.items.toList.drop start
    · have hmem : (⟨j, again.pool.get j⟩ : Entry) ∈ after.entries := by
        rw [← hentries]
        exact List.mem_map_of_mem (List.mem_of_mem_drop hj)
      exact (get_of_mem_entries hmem).symm
    · exact hagain.frame j hj
  have hpool : again.pool = after.pool := by
    refine Pool.ext_get hagain.size_eq hget ?_
    rw [hagain.free_eq, h.above, hnone]
    rfl
  obtain ⟨pool, items⟩ := again
  obtain ⟨pool', items'⟩ := after
  obtain rfl : pool = pool' := hpool
  obtain rfl : items = items' := hitems
  rfl

/-- A grouping begins at the same place a second time. -/
lemma demotionStart_eq (h : w.Groups (w.demotionStart offset joinBelow) after)
    (hoffset : offset ≤ w.size) :
    after.demotionStart offset joinBelow = w.demotionStart offset joinBelow := by
  cases hjoin : joinBelow && decide (0 < offset) with
  | false => rw [demotionStart, demotionStart, hjoin]; rfl
  | true =>
      have hpos : 0 < offset := by simpa using (Bool.and_eq_true_iff.mp hjoin).2
      obtain ⟨e, he, hget⟩ := w.entries_getElem? (i := offset - 1) (by omega)
      have hstart : ∀ w : WorkStack, w.demotionStart offset joinBelow
          = if (w.get (offset - 1)).isLiteral then offset - 1 else offset := by
        intro w
        rw [demotionStart, hjoin, Bool.true_and]
      rw [hstart] at h
      rw [hstart, hstart]
      cases hliteral : (w.get (offset - 1)).isLiteral with
      | false =>
          -- the draft below is untouched
          rw [hliteral, if_neg Bool.false_ne_true] at h
          have hsame : after.entries[offset - 1]? = w.entries[offset - 1]? := by
            rw [← List.getElem?_take_of_lt (by omega : offset - 1 < offset), h.below,
              List.getElem?_take_of_lt (by omega)]
          rw [get_eq_of_entries (hsame.trans he), hget, hliteral]
      | true =>
          -- the draft below is the first of the upper part, and a literal again
          rw [hliteral, if_pos rfl] at h
          have htext : e.draft.isText = true := by
            rw [hget]
            exact Draft.isText_of_isLiteral hliteral
          have hhead := Entry.isText_head?_grouped (w.entries.drop (offset - 1))
          rw [← h.above, List.head?_drop, List.head?_drop, he, Option.map_some, htext,
            Option.map_eq_some_iff] at hhead
          obtain ⟨x, hx, hxtext⟩ := hhead
          have hmem : x ∈ grouped (w.entries.drop (offset - 1)) := by
            rw [← h.above]
            refine List.mem_of_mem_head? ?_
            rw [List.head?_drop]
            exact hx
          obtain ⟨text, htext⟩ := Option.isSome_iff_exists.mp hxtext
          rw [get_eq_of_entries hx, (Entry.settled_grouped _).literal x hmem text htext]
          rfl

lemma start_le (h : w.Groups start after) (hstart : start ≤ w.size) : start ≤ after.size := by
  have hlength := congrArg List.length h.below
  simp only [List.length_take, entries, List.length_map, Array.length_toList] at hlength
  rw [size] at hstart ⊢
  omega

end Groups

/-- **A second demotion changes nothing.** -/
theorem demote_demote (hnodup : w.items.toList.Nodup)
    (hbound : ∀ id ∈ w.items.toList, id < w.pool.slots.size) (hoffset : offset ≤ w.size)
    (joinBelow : Bool) :
    (w.demote offset joinBelow).demote offset joinBelow = w.demote offset joinBelow := by
  have hstart := (w.demotionStart_le offset joinBelow).trans hoffset
  have hgroups := groups_demote hnodup hbound hstart
  have hsame := hgroups.demotionStart_eq hoffset
  have hnodup' := hnodup.sublist hgroups.sublist_items
  have hbound' : ∀ id ∈ (w.demote offset joinBelow).items.toList,
      id < (w.demote offset joinBelow).pool.slots.size := by
    intro id hid
    rw [hgroups.size_eq]
    exact hbound id (hgroups.sublist_items.subset hid)
  have hagain := groups_demote hnodup' hbound' (hsame ▸ hgroups.start_le hstart)
  rw [hsame] at hagain
  exact hgroups.eq_of_grouped hagain

end WorkStack

end BraceExpansion
