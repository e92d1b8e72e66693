import Orchestrion.Document.Yaml.Reader
import Orchestrion.Proofs.Document.Yaml.Token

set_option autoImplicit false

/-!
# Words that go too far in a document

What the tokens say, the nodes say that are read from them, and what no node says has no value
with a fault.  So a text that is written as a document is has a fault only if a word in it goes
too far.

All functions that read nodes call each other with one step less, so what they do is told for
all of them at once, by induction on the steps.
-/

namespace Orchestrion.Document.Yaml

variable {source : List Char} {fault : Fault} {ts : List Token}

/-! ## Nodes -/

/-- A node whose plain texts all stand in a source, word by word. -/
inductive Node.StandsIn (source : List Char) : Node → Prop where
  | plain (text : String) (h : IsCovered source text.toList) : StandsIn source (.plain text)
  | quoted (text : String) : StandsIn source (.quoted text)
  | sequence (items : List Node) (h : ∀ n ∈ items, StandsIn source n) :
      StandsIn source (.sequence items)
  | mapping (entries : List (Node × Node))
      (hkeys : ∀ entry ∈ entries, StandsIn source entry.1)
      (hvalues : ∀ entry ∈ entries, StandsIn source entry.2) : StandsIn source (.mapping entries)
  | unmergeable : StandsIn source .unmergeable

namespace Node

/-- An entry whose key and value stand in a source. -/
def EntryStandsIn (source : List Char) (entry : Node × Node) : Prop :=
  entry.1.StandsIn source ∧ entry.2.StandsIn source

theorem standsIn_mapping {entries : List (Node × Node)}
    (h : ∀ entry ∈ entries, EntryStandsIn source entry) : (mapping entries).StandsIn source :=
  .mapping entries (fun entry hentry => (h entry hentry).1) fun entry hentry => (h entry hentry).2

/-- The items of a sequence are found last one first. -/
theorem standsIn_sequence {found : List Node} (h : ∀ n ∈ found, n.StandsIn source) :
    (sequence found.reverse).StandsIn source :=
  .sequence _ fun n hn => h n (List.mem_reverse.mp hn)

theorem standsIn_empty : Node.empty.StandsIn source := .plain "" isCovered_nil

/-- What is made of all members of a list is made of each one. -/
theorem forall_of_mapM {α β : Type} {f : α → Option β} {p : β → Prop} {as : List α} {bs : List β}
    (h : as.mapM f = some bs) (hf : ∀ a ∈ as, ∀ b, f a = some b → p b) : ∀ b ∈ bs, p b := by
  induction as generalizing bs with
  | nil =>
    obtain rfl : [] = bs := by simpa using h
    exact List.forall_mem_nil _
  | cons a as ih =>
    rw [List.mapM_cons] at h
    simp only [Option.bind_eq_bind, Option.bind_eq_some_iff, Option.pure_def, Option.some.injEq] at h
    obtain ⟨b, hb, rest, hrest, rfl⟩ := h
    rw [List.forall_mem_cons] at hf ⊢
    exact ⟨hf.1 b hb, ih hrest hf.2⟩

theorem StandsIn.entries? {n : Node} (h : n.StandsIn source) {entries : List (Node × Node)}
    (hentries : n.entries? = some entries) : ∀ entry ∈ entries, EntryStandsIn source entry := by
  cases h with
  | mapping entries' hkeys hvalues =>
    cases hentries
    exact fun entry hentry => ⟨hkeys entry hentry, hvalues entry hentry⟩
  | _ => cases hentries

theorem StandsIn.mergeable? {n : Node} (h : n.StandsIn source) {entries : List (Node × Node)}
    (hentries : n.mergeable? = some entries) : ∀ entry ∈ entries, EntryStandsIn source entry := by
  unfold Node.mergeable? at hentries
  split at hentries
  · rename_i items
    cases h with
    | sequence _ hitems =>
      obtain ⟨lists, hlists, rfl⟩ := Option.map_eq_some_iff.mp hentries
      have hall : ∀ list ∈ lists, ∀ entry ∈ list, EntryStandsIn source entry :=
        forall_of_mapM hlists fun n hn list hlist =>
          (hitems n (List.mem_reverse.mp hn)).entries? hlist
      intro entry hentry
      obtain ⟨list, hlist, hmem⟩ := List.mem_flatten.mp hentry
      exact hall list hlist entry hmem
  · exact h.entries? hentries

/-- Merged entries are entries of the values that are merged. -/
theorem standsIn_ofEntries {entries : List (Node × Node)}
    (h : ∀ entry ∈ entries, EntryStandsIn source entry) : (ofEntries entries).StandsIn source := by
  unfold ofEntries
  dsimp only
  split
  · exact .unmergeable
  · rename_i merged hmerged
    have hall : ∀ list ∈ merged, ∀ entry ∈ list, EntryStandsIn source entry :=
      forall_of_mapM hmerged fun entry hentry list hlist =>
        (h entry (List.mem_of_mem_filter hentry)).2.mergeable? hlist
    apply standsIn_mapping
    intro entry hentry
    rcases List.mem_append.mp hentry with hentry | hentry
    · obtain ⟨list, hlist, hmem⟩ := List.mem_flatten.mp hentry
      exact hall list hlist entry hmem
    · exact h entry (List.mem_of_mem_filter hentry)

end Node

/-! ## Reading of nodes -/

/-- Something that is read from tokens of a source: it is as required, and the tokens that are
left are from the source as well. -/
def Reads {β : Type} (source : List Char) (Q : β → Prop) (r : Reading β) : Prop :=
  Yields source (fun x => Q x.1 ∧ AllStandIn source x.2) r

theorem Reads.of_ok {β : Type} {Q : β → Prop} {b : β} (h : Reads source Q (.ok (b, ts))) :
    Q b ∧ AllStandIn source ts := by
  cases h with
  | ok h => exact h

/-- A reading ends with a fault that may be told in its place, or with something that is as
required. -/
theorem Reads.cases {β : Type} {Q : β → Prop} {r : Reading β} (h : Reads source Q r) :
    (∃ fault, r = .error fault ∧
      ∀ {γ : Type} {R : γ → Prop}, Yields source R (.error fault : Except Fault γ)) ∨
    ∃ b ts, r = .ok (b, ts) ∧ Q b ∧ AllStandIn source ts := by
  cases h with
  | ok h => exact .inr ⟨_, _, rfl, h⟩
  | malformed => exact .inl ⟨_, rfl, .malformed⟩
  | exceeds h => exact .inl ⟨_, rfl, .exceeds h⟩

theorem allStandIn_cons {t : Token} :
    AllStandIn source (t :: ts) ↔ t.StandsIn source ∧ AllStandIn source ts :=
  List.forall_mem_cons

/-- Where tokens do not go on as they should, a word has gone too far, or the text is not
written as a document is. -/
theorem yields_faultAt {β : Type} {Q : β → Prop} (h : AllStandIn source ts) :
    Yields source Q (.error (faultAt ts)) := by
  unfold faultAt
  split
  · exact .exceeds (allStandIn_cons.mp h).1
  · exact .malformed

theorem yields_afterComma (first : Bool) (h : AllStandIn source ts) :
    Yields source (AllStandIn source) (afterComma first ts) := by
  unfold afterComma
  split
  · exact .ok h
  · split
    · exact .ok (allStandIn_cons.mp h).2
    · exact yields_faultAt h

/-- What all readers do with some steps at most. -/
structure ReadsNodes (source : List Char) (steps : Nat) : Prop where
  node : ∀ site ts, AllStandIn source ts →
    Reads source (fun n => n.StandsIn source) (node site ts steps)
  nodeUnless : ∀ stop site ts, AllStandIn source ts →
    Reads source (fun n => n.StandsIn source) (nodeUnless stop site ts steps)
  valueUnless : ∀ stop site ts, AllStandIn source ts →
    Reads source (fun n => n.StandsIn source) (valueUnless stop site ts steps)
  items : ∀ found ts, (∀ n ∈ found, n.StandsIn source) → AllStandIn source ts →
    Reads source (fun n => n.StandsIn source) (items found ts steps)
  runItems : ∀ found ts, (∀ n ∈ found, n.StandsIn source) → AllStandIn source ts →
    Reads source (fun n => n.StandsIn source) (runItems found ts steps)
  entries : ∀ found ts, (∀ entry ∈ found, Node.EntryStandsIn source entry) →
    AllStandIn source ts → Reads source (fun n => n.StandsIn source) (entries found ts steps)
  listItems : ∀ first found ts, (∀ n ∈ found, n.StandsIn source) → AllStandIn source ts →
    Reads source (fun n => n.StandsIn source) (listItems first found ts steps)
  mapEntries : ∀ first found ts, (∀ entry ∈ found, Node.EntryStandsIn source entry) →
    AllStandIn source ts →
    Reads source (fun n => n.StandsIn source) (mapEntries first found ts steps)

theorem readsNodes_zero (source : List Char) : ReadsNodes source 0 where
  node _ _ _ := .malformed
  nodeUnless _ _ _ _ := .malformed
  valueUnless _ _ _ _ := .malformed
  items _ _ _ _ := .malformed
  runItems _ _ _ _ := .malformed
  entries _ _ _ _ := .malformed
  listItems _ _ _ _ _ := .malformed
  mapEntries _ _ _ _ _ := .malformed

section

variable {steps : Nat} (h : ReadsNodes source steps) (hts : AllStandIn source ts)

include h hts

theorem ReadsNodes.node_succ (site : Site) :
    Reads source (fun n => n.StandsIn source) (Yaml.node site ts (steps + 1)) := by
  unfold Yaml.node
  split
  · obtain ⟨htext, hts⟩ := allStandIn_cons.mp hts
    exact .ok ⟨.plain _ htext, hts⟩
  · exact .ok ⟨.quoted _, (allStandIn_cons.mp hts).2⟩
  · exact h.listItems _ _ _ (List.forall_mem_nil _) (allStandIn_cons.mp hts).2
  · exact h.mapEntries _ _ _ (List.forall_mem_nil _) (allStandIn_cons.mp hts).2
  · split
    · exact .malformed
    · exact h.items _ _ (List.forall_mem_nil _) (allStandIn_cons.mp hts).2
  · split
    · exact .malformed
    · exact h.entries _ _ (List.forall_mem_nil _) (allStandIn_cons.mp hts).2
  · split
    · exact h.runItems _ _ (List.forall_mem_nil _) hts
    · exact .malformed
  · exact yields_faultAt hts

theorem ReadsNodes.nodeUnless_succ (stop : Token → Bool) (site : Site) :
    Reads source (fun n => n.StandsIn source) (Yaml.nodeUnless stop site ts (steps + 1)) := by
  unfold Yaml.nodeUnless
  split
  · exact .ok ⟨Node.standsIn_empty, hts⟩
  · exact h.node site ts hts

theorem ReadsNodes.valueUnless_succ (stop : Token → Bool) (site : Site) :
    Reads source (fun n => n.StandsIn source) (Yaml.valueUnless stop site ts (steps + 1)) := by
  unfold Yaml.valueUnless
  split
  · exact h.nodeUnless stop site _ (allStandIn_cons.mp hts).2
  · exact .ok ⟨Node.standsIn_empty, hts⟩

theorem ReadsNodes.items_succ {found : List Node} (hfound : ∀ n ∈ found, n.StandsIn source) :
    Reads source (fun n => n.StandsIn source) (Yaml.items found ts (steps + 1)) := by
  unfold Yaml.items
  split
  · obtain ⟨fault, hr, hfault⟩ | ⟨n, ts', hr, hn, hts'⟩ :=
      (h.nodeUnless endsItem .block _ (allStandIn_cons.mp hts).2).cases
    · simp only [hr]
      exact hfault
    · simp only [hr]
      exact h.items _ _ (List.forall_mem_cons.mpr ⟨hn, hfound⟩) hts'
  · exact .ok ⟨Node.standsIn_sequence hfound, (allStandIn_cons.mp hts).2⟩
  · exact yields_faultAt hts

theorem ReadsNodes.runItems_succ {found : List Node} (hfound : ∀ n ∈ found, n.StandsIn source) :
    Reads source (fun n => n.StandsIn source) (Yaml.runItems found ts (steps + 1)) := by
  unfold Yaml.runItems
  split
  · obtain ⟨fault, hr, hfault⟩ | ⟨n, ts', hr, hn, hts'⟩ :=
      (h.nodeUnless endsRunItem .block _ (allStandIn_cons.mp hts).2).cases
    · simp only [hr]
      exact hfault
    · simp only [hr]
      exact h.runItems _ _ (List.forall_mem_cons.mpr ⟨hn, hfound⟩) hts'
  · exact .ok ⟨Node.standsIn_sequence hfound, hts⟩

theorem ReadsNodes.entries_succ {found : List (Node × Node)}
    (hfound : ∀ entry ∈ found, Node.EntryStandsIn source entry) :
    Reads source (fun n => n.StandsIn source) (Yaml.entries found ts (steps + 1)) := by
  unfold Yaml.entries
  split
  · obtain ⟨fault, hr, hfault⟩ | ⟨k, ts', hr, hk, hts'⟩ :=
      (h.nodeUnless endsEntry .entry _ (allStandIn_cons.mp hts).2).cases
    · simp only [hr]
      exact hfault
    · simp only [hr]
      obtain ⟨fault, hr, hfault⟩ | ⟨n, ts'', hr, hn, hts''⟩ :=
        (h.valueUnless endsEntry .entry _ hts').cases
      · simp only [hr]
        exact hfault
      · simp only [hr]
        exact h.entries _ _ (List.forall_mem_cons.mpr ⟨⟨hk, hn⟩, hfound⟩) hts''
  · refine .ok ⟨Node.standsIn_ofEntries ?_, (allStandIn_cons.mp hts).2⟩
    exact fun entry hentry => hfound entry (List.mem_reverse.mp hentry)
  · exact yields_faultAt hts

theorem ReadsNodes.listItems_succ {found : List Node} (hfound : ∀ n ∈ found, n.StandsIn source)
    (first : Bool) :
    Reads source (fun n => n.StandsIn source) (Yaml.listItems first found ts (steps + 1)) := by
  unfold Yaml.listItems
  split
  · exact .ok ⟨Node.standsIn_sequence hfound, (allStandIn_cons.mp hts).2⟩
  · have hcomma := yields_afterComma first hts
    split
    · rename_i fault hr
      rw [hr] at hcomma
      exact hcomma.of_error
    · rename_i ts' hr
      rw [hr] at hcomma
      exact .ok ⟨Node.standsIn_sequence hfound, (allStandIn_cons.mp hcomma.of_ok).2⟩
    · rename_i ts' hr
      rw [hr] at hcomma
      obtain ⟨fault, hr, hfault⟩ | ⟨k, ts', hr, hk, hts'⟩ :=
        (h.nodeUnless (fun t => t == .value || endsListItem t) .flow _
          (allStandIn_cons.mp hcomma.of_ok).2).cases
      · simp only [hr]
        exact hfault
      · simp only [hr]
        obtain ⟨fault, hr, hfault⟩ | ⟨n, ts'', hr, hn, hts''⟩ :=
          (h.valueUnless endsListItem .flow _ hts').cases
        · simp only [hr]
          exact hfault
        · simp only [hr]
          have hentry : (Node.ofEntries [(k, n)]).StandsIn source :=
            Node.standsIn_ofEntries (by simpa using ⟨hk, hn⟩)
          exact h.listItems _ _ _ (List.forall_mem_cons.mpr ⟨hentry, hfound⟩) hts''
    · rename_i ts' _ _ hr
      rw [hr] at hcomma
      obtain ⟨fault, hr, hfault⟩ | ⟨n, ts', hr, hn, hts'⟩ :=
        (h.node .flow _ hcomma.of_ok).cases
      · simp only [hr]
        exact hfault
      · simp only [hr]
        exact h.listItems _ _ _ (List.forall_mem_cons.mpr ⟨hn, hfound⟩) hts'

theorem ReadsNodes.mapEntries_succ {found : List (Node × Node)}
    (hfound : ∀ entry ∈ found, Node.EntryStandsIn source entry) (first : Bool) :
    Reads source (fun n => n.StandsIn source) (Yaml.mapEntries first found ts (steps + 1)) := by
  have hentries : (Node.ofEntries found.reverse).StandsIn source :=
    Node.standsIn_ofEntries fun entry hentry => hfound entry (List.mem_reverse.mp hentry)
  unfold Yaml.mapEntries
  split
  · exact .ok ⟨hentries, (allStandIn_cons.mp hts).2⟩
  · have hcomma := yields_afterComma first hts
    split
    · rename_i fault hr
      rw [hr] at hcomma
      exact hcomma.of_error
    · rename_i ts' hr
      rw [hr] at hcomma
      exact .ok ⟨hentries, (allStandIn_cons.mp hcomma.of_ok).2⟩
    · rename_i ts' hr
      rw [hr] at hcomma
      obtain ⟨fault, hr, hfault⟩ | ⟨k, ts', hr, hk, hts'⟩ :=
        (h.nodeUnless (fun t => t == .value || endsMapEntry t) .flow _
          (allStandIn_cons.mp hcomma.of_ok).2).cases
      · simp only [hr]
        exact hfault
      · simp only [hr]
        obtain ⟨fault, hr, hfault⟩ | ⟨n, ts'', hr, hn, hts''⟩ :=
          (h.valueUnless endsMapEntry .flow _ hts').cases
        · simp only [hr]
          exact hfault
        · simp only [hr]
          exact h.mapEntries _ _ _ (List.forall_mem_cons.mpr ⟨⟨hk, hn⟩, hfound⟩) hts''
    · rename_i ts' _ _ hr
      rw [hr] at hcomma
      obtain ⟨fault, hr, hfault⟩ | ⟨n, ts', hr, hn, hts'⟩ :=
        (h.node .flow _ hcomma.of_ok).cases
      · simp only [hr]
        exact hfault
      · simp only [hr]
        exact h.mapEntries _ _ _
          (List.forall_mem_cons.mpr ⟨⟨hn, Node.standsIn_empty⟩, hfound⟩) hts'

end

theorem readsNodes (source : List Char) (steps : Nat) : ReadsNodes source steps := by
  induction steps with
  | zero => exact readsNodes_zero source
  | succ steps ih =>
    exact {
      node := fun site _ hts => ih.node_succ hts site
      nodeUnless := fun stop site _ hts => ih.nodeUnless_succ hts stop site
      valueUnless := fun stop site _ hts => ih.valueUnless_succ hts stop site
      items := fun _ _ hfound hts => ih.items_succ hts hfound
      runItems := fun _ _ hfound hts => ih.runItems_succ hts hfound
      entries := fun _ _ hfound hts => ih.entries_succ hts hfound
      listItems := fun first _ _ hfound hts => ih.listItems_succ hts hfound first
      mapEntries := fun first _ _ hfound hts => ih.mapEntries_succ hts hfound first }

/-- The only document of tokens of a source is from the source. -/
theorem yields_document (hts : AllStandIn source ts) :
    Yields source (fun n => n.StandsIn source) (document ts) := by
  have hreads := readsNodes source (2 * ts.length + 2)
  unfold document
  dsimp only
  split
  · rename_i fault hfault
    split at hfault
    · cases hfault
    · cases hfault
    · have hnode := hreads.nodeUnless endsDocument .block _ (allStandIn_cons.mp hts).2
      rw [hfault] at hnode
      exact Yields.of_error hnode
    · have hnode := hreads.node .block _ hts
      rw [hfault] at hnode
      exact Yields.of_error hnode
  · rename_i n rest hok
    have hread : n.StandsIn source ∧ AllStandIn source rest := by
      split at hok
      · cases hok
        exact ⟨Node.standsIn_empty, hts⟩
      · cases hok
        exact ⟨Node.standsIn_empty, List.forall_mem_nil _⟩
      · have hnode := hreads.nodeUnless endsDocument .block _ (allStandIn_cons.mp hts).2
        rw [hok] at hnode
        exact hnode.of_ok
      · have hnode := hreads.node .block _ hts
        rw [hok] at hnode
        exact hnode.of_ok
    split
    · exact .ok hread.1
    · exact yields_faultAt fun t ht => hread.2 t ((List.dropWhile_suffix _).subset ht)

/-! ## Values -/

/-- A fault of a text that is not written as a document is, or in which a word goes too far. -/
def HasCause (source : List Char) (fault : Fault) : Prop :=
  fault = .malformed ∨ Exceeds source fault

theorem Yields.hasCause {β : Type} {Q : β → Prop} (h : Yields source Q (.error fault)) :
    HasCause source fault := by
  cases h with
  | malformed => exact .inl rfl
  | exceeds h => exact .inr h

theorem hasCause_of_ofPlain {text : String} (htext : IsCovered source text.toList)
    (h : ofPlain text = .error fault) : HasCause source fault := by
  refine (excess_of_ofPlain h).imp_right fun ⟨word, hword, hexcess⟩ => ?_
  exact .word word (htext word hexcess.not_isSpace hword) hexcess

theorem hasCause_of_keyOf {n : Node} (hn : n.StandsIn source) (h : keyOf n = .error fault) :
    HasCause source fault := by
  cases hn with
  | plain text htext =>
    simp only [keyOf] at h
    split at h
    · cases h
    · exact hasCause_of_ofPlain htext h
  | quoted => cases h
  | _ =>
    cases h
    exact .inl rfl

/-! ### Levels -/

theorem faultOf?_eq_some {β : Type} {r : Except Fault β} (h : faultOf? r = some fault) :
    r = .error fault := by
  cases r with
  | ok b => cases h
  | error fault' =>
    cases h
    rfl

theorem mem_zipLevels {xs ys : List (Option Fault)} (h : some fault ∈ zipLevels xs ys) :
    some fault ∈ xs ∨ some fault ∈ ys := by
  fun_induction zipLevels xs ys with
  | case1 => exact .inr h
  | case2 => exact .inl h
  | case3 x xs y ys ih =>
    rcases List.mem_cons.mp h with hor | h
    · rcases Option.or_eq_some_iff.mp hor.symm with rfl | ⟨-, rfl⟩
      · exact .inl List.mem_cons_self
      · exact .inr List.mem_cons_self
    · exact (ih h).imp (List.mem_cons_of_mem x) (List.mem_cons_of_mem y)

/-- One level more has no fault more. -/
theorem mem_levels_of_lowered {n : Node}
    (h : some fault ∈ if n.isCollection then none :: n.levels else n.levels) :
    some fault ∈ n.levels := by
  split at h
  · simpa using h
  · exact h

theorem exists_of_mem_itemLevels {items : List Node} (h : some fault ∈ itemLevels items) :
    ∃ n ∈ items, some fault ∈ n.levels := by
  induction items with
  | nil => simp [itemLevels] at h
  | cons n rest ih =>
    unfold itemLevels at h
    rcases mem_zipLevels h with h | h
    · exact ⟨n, List.mem_cons_self, mem_levels_of_lowered h⟩
    · obtain ⟨n', hn', h⟩ := ih h
      exact ⟨n', List.mem_cons_of_mem n hn', h⟩

theorem exists_of_mem_entryLevels {entries : List (Node × Node)}
    (h : some fault ∈ entryLevels entries) :
    ∃ entry ∈ entries, keyOf entry.1 = .error fault ∨ some fault ∈ entry.2.levels := by
  induction entries with
  | nil => simp [entryLevels] at h
  | cons entry rest ih =>
    obtain ⟨k, n⟩ := entry
    unfold entryLevels at h
    rcases mem_zipLevels h with h | h
    · exact ⟨(k, n), List.mem_cons_self, .inl (faultOf?_eq_some (List.mem_singleton.mp h).symm)⟩
    · rcases mem_zipLevels h with h | h
      · exact ⟨(k, n), List.mem_cons_self, .inr (mem_levels_of_lowered h)⟩
      · obtain ⟨entry, hentry, h⟩ := ih h
        exact ⟨entry, List.mem_cons_of_mem _ hentry, h⟩

/-- The faults on the levels of a node are those of its plain texts. -/
theorem Node.StandsIn.hasCause_of_levels {n : Node} (hn : n.StandsIn source)
    (h : some fault ∈ n.levels) : HasCause source fault := by
  induction hn with
  | plain text htext =>
    simp only [Node.levels, List.mem_singleton] at h
    exact hasCause_of_ofPlain htext (faultOf?_eq_some h.symm)
  | quoted => simp [Node.levels] at h
  | sequence items _ ih =>
    unfold Node.levels at h
    obtain ⟨n, hn, h⟩ := exists_of_mem_itemLevels h
    exact ih n hn h
  | mapping entries hkeys _ _ ih =>
    unfold Node.levels at h
    obtain ⟨entry, hentry, h | h⟩ := exists_of_mem_entryLevels h
    · exact hasCause_of_keyOf (hkeys entry hentry) h
    · exact ih entry hentry h
  | unmergeable =>
    simp only [Node.levels, List.mem_singleton, Option.some.injEq] at h
    exact .inl h

/-! ### The value of a node -/

theorem exists_of_valuesOf {items : List Node} (h : valuesOf items = .error fault) :
    ∃ n ∈ items, n.toValue = .error fault := by
  induction items with
  | nil => simp [valuesOf] at h
  | cons n rest ih =>
    unfold valuesOf at h
    split at h
    · rename_i hn
      cases h
      exact ⟨n, List.mem_cons_self, hn⟩
    · split at h
      · rename_i hrest
        cases h
        obtain ⟨n', hn', h⟩ := ih hrest
        exact ⟨n', List.mem_cons_of_mem n hn', h⟩
      · cases h

theorem exists_of_entriesOf {before : List (Atom × Value)} {entries : List (Node × Node)}
    (h : entriesOf before entries = .error fault) :
    ∃ entry ∈ entries, keyOf entry.1 = .error fault ∨ entry.2.toValue = .error fault := by
  induction entries generalizing before with
  | nil => simp [entriesOf] at h
  | cons entry rest ih =>
    obtain ⟨k, n⟩ := entry
    unfold entriesOf at h
    split at h
    · rename_i hk
      cases h
      exact ⟨(k, n), List.mem_cons_self, .inl hk⟩
    · split at h
      · rename_i hn
        cases h
        exact ⟨(k, n), List.mem_cons_self, .inr hn⟩
      · obtain ⟨entry, hentry, h⟩ := ih h
        exact ⟨entry, List.mem_cons_of_mem _ hentry, h⟩

theorem Node.StandsIn.hasCause_of_toValue {n : Node} (hn : n.StandsIn source)
    (h : n.toValue = .error fault) : HasCause source fault := by
  induction hn with
  | plain text htext =>
    unfold Node.toValue at h
    split at h
    · cases h
    · rename_i hplain
      cases h
      exact hasCause_of_ofPlain htext hplain
  | quoted => simp [Node.toValue] at h
  | sequence items _ ih =>
    unfold Node.toValue at h
    split at h
    · cases h
    · rename_i hitems
      cases h
      obtain ⟨n, hn, h⟩ := exists_of_valuesOf hitems
      exact ih n hn h
  | mapping entries hkeys _ _ ih =>
    unfold Node.toValue at h
    split at h
    · cases h
    · rename_i hentries
      cases h
      obtain ⟨entry, hentry, h | h⟩ := exists_of_entriesOf hentries
      · exact hasCause_of_keyOf (hkeys entry hentry) h
      · exact ih entry hentry h
  | unmergeable =>
    simp only [Node.toValue, Except.error.injEq] at h
    exact .inl h.symm

theorem Node.StandsIn.hasCause_of_read {n : Node} (hn : n.StandsIn source)
    (h : n.read = .error fault) : HasCause source fault := by
  unfold Node.read at h
  split at h
  · rename_i fault' hlevels
    cases h
    obtain ⟨level, hlevel, rfl⟩ := List.exists_of_findSome?_eq_some hlevels
    exact hn.hasCause_of_levels hlevel
  · exact hn.hasCause_of_toValue h

/-- A text from which no value is read is not written as a document is, or has a word that goes
too far. -/
theorem hasCause_of_read {text : String} (h : read text = .error fault) :
    HasCause text.toList fault := by
  unfold read at h
  have htokens := yields_tokens text
  split at h
  · rename_i hr
    cases h
    rw [hr] at htokens
    exact htokens.hasCause
  · rename_i ts hr
    rw [hr] at htokens
    have hdocument := yields_document htokens.of_ok
    split at h
    · rename_i hr'
      cases h
      rw [hr'] at hdocument
      exact hdocument.hasCause
    · rename_i n hr'
      rw [hr'] at hdocument
      exact hdocument.of_ok.hasCause_of_read h

end Orchestrion.Document.Yaml
