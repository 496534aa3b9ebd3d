import LogBarrier.Double.Read
import LogBarrier.Options.Slot
import LogBarrier.Proofs.Standard
import Mathlib.Data.List.DropRight
import Mathlib.Data.List.Induction
import Mathlib.Tactic.IntervalCases

/-!
# Setting options one after the other

The options are what stands under their names. A call that sets one of them by its name leaves what
stands under the other names as it is, and a call that fails leaves everything. After any calls an
option has the value of the last text for its name that was accepted, whatever was set in between.
The name of the solver is stored as text and read again later; what has been accepted once is
accepted then.
-/

namespace LogBarrier

variable {α : Type}

/-! ## Blanks -/

namespace Text

/-- The front of a text without leading blanks has none either. -/
theorem dropWhile_rdropWhile (p : Char → Bool) (cs : List Char) :
    ((cs.dropWhile p).rdropWhile p).dropWhile p = (cs.dropWhile p).rdropWhile p := by
  refine List.dropWhile_eq_self_iff.mpr fun hlength => ?_
  have hfront := List.rdropWhile_prefix p (cs.dropWhile p)
  rw [hfront.getElem]
  exact List.dropWhile_get_zero_not p cs _

theorem trim_trim (s : String) : trim (trim s) = trim s := by
  have hlist : (trim s).toList = (s.toList.dropWhile isBlank).rdropWhile isBlank :=
    String.toList_ofList
  have htrim (t : String) : trim t =
      String.ofList ((t.toList.dropWhile isBlank).rdropWhile isBlank) := rfl
  rw [htrim (trim s), hlist, dropWhile_rdropWhile, List.rdropWhile_idempotent, htrim s]

end Text

/-! ## Lists of names and values -/

section

variable {β : Type} {l : List (String × β)}

theorem lookup_map_values (f : String → β → β) (l : List (String × β)) (name : String) :
    (l.map fun r => (r.1, f r.1 r.2)).lookup name = (l.lookup name).map (f name) := by
  induction l with
  | nil => rfl
  | cons r l ih =>
    obtain ⟨n, v⟩ := r
    rw [List.map_cons, List.lookup_cons, List.lookup_cons, ih]
    by_cases h : name = n
    · subst h
      simp
    · rw [beq_false_of_ne h]

/-- Where no name stands twice, a row is found by its name. -/
theorem set_eq_map (hnodup : (l.map Prod.fst).Nodup) {i : Nat} {name : String} (v : β)
    (hi : (l.map Prod.fst)[i]? = some name) :
    l.set i (name, v) = l.map fun r => (r.1, if r.1 = name then v else r.2) := by
  induction l generalizing i with
  | nil => rfl
  | cons r l ih =>
    obtain ⟨hr, hl⟩ := List.nodup_cons.mp hnodup
    cases i with
    | zero =>
      obtain rfl : r.1 = name := by simpa using hi
      have hrest : l.map (fun s => (s.1, if s.1 = r.1 then v else s.2)) = l := by
        refine (List.map_congr_left fun s hs => ?_).trans l.map_id
        have hne : s.1 ≠ r.1 := fun h => hr (List.mem_map.mpr ⟨s, hs, h⟩)
        rw [if_neg hne]
        rfl
      rw [List.set_cons_zero, List.map_cons, if_pos rfl, hrest]
    | succ i =>
      have hi' : (l.map Prod.fst)[i]? = some name := by simpa using hi
      have hne : r.1 ≠ name := fun h => hr (h ▸ List.mem_of_getElem? hi')
      rw [List.set_cons_succ, ih hl hi', List.map_cons, if_neg hne]

theorem mem_of_lookup {name : String} {v : β} (h : l.lookup name = some v) : (name, v) ∈ l := by
  obtain ⟨before, behind, rfl, -⟩ := List.lookup_eq_some_iff.mp h
  exact List.mem_append_cons_self

theorem lookup_eq_none_iff_names {name : String} :
    l.lookup name = none ↔ name ∉ l.map Prod.fst := by
  rw [List.lookup_eq_none_iff, List.mem_map]
  constructor
  · rintro h ⟨r, hr, rfl⟩
    simpa using h r hr
  · intro h r hr
    rw [bne_iff_ne]
    exact fun heq => h ⟨r, hr, heq.symm⟩

/-- Lists with the same names in order, none of them twice, and the same values. -/
theorem eq_of_lookup {l' : List (String × β)} (hnodup : (l.map Prod.fst).Nodup)
    (hnames : l.map Prod.fst = l'.map Prod.fst) (h : ∀ name, l.lookup name = l'.lookup name) :
    l = l' := by
  induction l generalizing l' with
  | nil => exact (List.map_eq_nil_iff.mp hnames.symm).symm
  | cons r l ih =>
    cases l' with
    | nil => cases hnames
    | cons r' l' =>
      obtain ⟨n, v⟩ := r
      obtain ⟨n', v'⟩ := r'
      obtain ⟨hn, hl⟩ := List.nodup_cons.mp hnodup
      obtain ⟨rfl, hrest⟩ := List.cons.inj hnames
      have hvalue := h n
      rw [List.lookup_cons_self, List.lookup_cons_self] at hvalue
      obtain rfl := Option.some.inj hvalue
      rw [ih hl hrest fun name => ?_]
      by_cases hname : name = n
      · subst hname
        rw [lookup_eq_none_iff_names.mpr hn, lookup_eq_none_iff_names.mpr (hrest ▸ hn)]
      · have htail := h name
        rwa [List.lookup_cons, List.lookup_cons, beq_false_of_ne hname] at htail

end

/-! ## What stands under a name -/

/-- The value of an option. -/
inductive Setting (α : Type) where
  | number (v : α)
  | count (k : Nat)
  | flag (b : Bool)
  | solver (name : String)

namespace Options

/-- The value of every option with its name. -/
def settings (o : Options α) : List (String × Setting α) :=
  [("mu_min", .number o.muMin), ("mu_max", .number o.muMax), ("rho", .number o.rho),
   ("use_linear_damping", .flag o.linearDamping), ("kappa_d", .number o.kappa),
   ("initial_gtol", .number o.initialGtol), ("gtol_shrink_rate", .number o.gtolRate),
   ("min_gtol", .number o.minGtol), ("initial_stol", .number o.initialStol),
   ("stol_shrink_rate", .number o.stolRate), ("min_stol", .number o.minStol),
   ("gradient_tolerance", .number o.gradientTolerance),
   ("max_outer_iterations", .count o.maxOuter), ("max_inner_iterations", .count o.maxInner),
   ("max_stall_iterations", .count o.maxStall), ("verbosity", .count o.verbosity),
   ("print_header", .flag o.printHeader), ("subproblem_name", .solver o.solverName),
   ("secant_memory", .count o.secantMemory), ("armijo_c1", .number o.armijo),
   ("backtracking_rate", .number o.backtrackingRate), ("max_backtracks", .count o.maxBacktracks)]

/-- The value of the option called `name`. -/
def get? (o : Options α) (name : String) : Option (Setting α) := o.settings.lookup name

theorem settings_injective : Function.Injective (settings (α := α)) := by
  intro o p h
  cases o
  cases p
  simpa [settings] using h

theorem names_settings (o : Options α) :
    o.settings.map Prod.fst = (slots : List (String × Slot α)).map Prod.fst := rfl

theorem nodup_names (o : Options α) : (o.settings.map Prod.fst).Nodup := by
  show ((slots : List (String × Slot Unit)).map Prod.fst).Nodup
  decide +kernel

/-- The options are no more than what stands under the names. -/
theorem ext_get? {o p : Options α} (h : ∀ name, o.get? name = p.get? name) : o = p :=
  settings_injective (eq_of_lookup o.nodup_names rfl h)

theorem get?_solver (o : Options α) : o.get? "subproblem_name" = some (.solver o.solverName) := rfl

variable [Numeral α]

/-! ## One call -/

/-- What the text `t`, without blanks around it, stands for in a slot. -/
def readIn? (t : String) : Slot α → Option (Setting α)
  | .number _ _ => (Numeral.read? t).map .number
  | .count limit _ _ => (Text.readNat? limit t).map .count
  | .flag _ _ => (Text.readBool? t).map .flag
  | .solver _ _ => (SolverChoice.ofName? t).map fun _ => .solver t

/-- What a text for the option called `name` stands for, nothing if it is not accepted. -/
def reading? (name text : String) : Option (Setting α) :=
  (slots.lookup name).bind (readIn? (Text.trim text))

/-- Only options have texts that are accepted. -/
theorem exists_get?_of_reading? {name text : String} {v : Setting α}
    (h : reading? name text = some v) (o : Options α) : ∃ w, o.get? name = some w := by
  obtain ⟨slot, hlookup, -⟩ := Option.bind_eq_some_iff.mp h
  refine Option.ne_none_iff_exists'.mp fun hnone => lookup_eq_none_iff_names.mp hnone ?_
  rw [names_settings]
  exact List.mem_map.mpr ⟨_, mem_of_lookup hlookup, rfl⟩

/-- A text that is refused changes nothing. -/
theorem assign_of_none {name text : String} {slot : Slot α}
    (h : readIn? (Text.trim text) slot = none) (o : Options α) :
    assign name text slot o = .error (cannotParse name text) o := by
  cases slot
  all_goals
    rw [readIn?, Option.map_eq_none_iff] at h
    rw [assign, h]
    rfl

/-- The options with `v` in the slot, if the slot takes such a value. -/
def place (o : Options α) : Slot α → Setting α → Options α
  | .number _ put, .number v => put o v
  | .count _ _ put, .count k => put o k
  | .flag _ put, .flag b => put o b
  | .solver _ put, .solver t => put o t
  | _, _ => o

theorem assign_of_some {name text : String} {slot : Slot α} {v : Setting α}
    (h : readIn? (Text.trim text) slot = some v) (o : Options α) :
    assign name text slot o = .ok () (o.place slot v) := by
  cases slot
  all_goals
    rw [readIn?, Option.map_eq_some_iff] at h
    obtain ⟨w, hread, rfl⟩ := h
    rw [assign, hread]
    rfl

/-- What is put into the slot in row `i` stands in row `i` of the settings and nowhere else. -/
theorem settings_place {t name : String} {slot : Slot α} {i : Nat} {v : Setting α}
    (hslot : slots[i]? = some (name, slot)) (h : readIn? t slot = some v) (o : Options α) :
    (o.place slot v).settings = o.settings.set i (name, v) := by
  have hi : i < 22 := (List.getElem?_eq_some_iff.mp hslot).1
  -- In each row it is the record update that shows where the value goes.
  interval_cases i <;> cases hslot
  all_goals
    obtain ⟨w, -, rfl⟩ := Option.map_eq_some_iff.mp h
    rfl

variable (α) in
/-- Why a text for the option called `name` is refused. -/
def refusal (name text : String) : Error :=
  match (slots : List (String × Slot α)).lookup name with
  | none => .invalidOption name "unknown option"
  | some _ => cannotParse name text

/-- A call with a text that is not accepted is refused and leaves the options as they are. -/
theorem set_of_none {name text : String} (h : (reading? name text : Option (Setting α)) = none)
    (o : Options α) : set name text o = .error (refusal α name text) o := by
  unfold set refusal
  cases hlookup : (slots : List (String × Slot α)).lookup name with
  | none => rfl
  | some slot =>
    rw [reading?, hlookup] at h
    exact assign_of_none h o

/-- A call with an accepted text replaces one setting. -/
theorem set_of_some {name text : String} {v : Setting α} (h : reading? name text = some v)
    (o : Options α) :
    ∃ p, set name text o = .ok () p ∧
      p.settings = o.settings.map fun r => (r.1, if r.1 = name then v else r.2) := by
  obtain ⟨slot, hlookup, hread⟩ := Option.bind_eq_some_iff.mp h
  obtain ⟨i, hi⟩ := List.mem_iff_getElem?.mp (mem_of_lookup hlookup)
  have hname : (o.settings.map Prod.fst)[i]? = some name := by
    rw [names_settings, List.getElem?_map, hi]
    rfl
  refine ⟨o.place slot v, ?_, ?_⟩
  · unfold set
    rw [hlookup]
    exact assign_of_some hread o
  · rw [settings_place hi hread, set_eq_map o.nodup_names v hname]

/-- All that a call can do. -/
theorem set_cases (o : Options α) (name text : String) :
    ((reading? name text : Option (Setting α)) = none ∧
      set name text o = .error (refusal α name text) o) ∨
    ∃ v p, reading? name text = some v ∧ set name text o = .ok () p ∧
      p.settings = o.settings.map fun r => (r.1, if r.1 = name then v else r.2) := by
  cases hread : (reading? name text : Option (Setting α)) with
  | none => exact .inl ⟨rfl, set_of_none hread o⟩
  | some v =>
    obtain ⟨p, hp, hsettings⟩ := set_of_some hread o
    exact .inr ⟨v, p, rfl, hp, hsettings⟩

theorem eq_of_set_error {o p : Options α} {name text : String} {e : Error}
    (h : set name text o = .error e p) :
    (reading? name text : Option (Setting α)) = none ∧ e = refusal α name text ∧ p = o := by
  rcases set_cases o name text with ⟨hread, hset⟩ | ⟨v, q, -, hset, -⟩
  · rw [hset] at h
    cases h
    exact ⟨hread, rfl, rfl⟩
  · rw [hset] at h
    cases h

theorem get?_of_set {o p : Options α} {name text : String} (h : set name text o = .ok () p) :
    (∃ v, reading? name text = some v ∧ p.get? name = some v) ∧
      ∀ other ≠ name, p.get? other = o.get? other := by
  rcases set_cases o name text with ⟨-, hset⟩ | ⟨v, q, hread, hset, hsettings⟩
  · rw [hset] at h
    cases h
  rw [hset] at h
  cases h
  have hget (other : String) :
      p.get? other = (o.get? other).map fun w => if other = name then v else w := by
    unfold get?
    rw [hsettings]
    exact lookup_map_values (fun other w => if other = name then v else w) o.settings other
  refine ⟨⟨v, hread, ?_⟩, fun other hother => ?_⟩
  · obtain ⟨w, hw⟩ := exists_get?_of_reading? hread o
    rw [hget, hw, Option.map_some, if_pos rfl]
  · rw [hget]
    simp [hother]

/-- What a call answers is known from its text. -/
theorem exists_answer (name text : String) :
    (∀ o : Options α, ∃ p, set name text o = .ok () p) ∨
      ∃ e, ∀ o : Options α, ∃ p, set name text o = .error e p := by
  cases hread : (reading? name text : Option (Setting α)) with
  | none => exact .inr ⟨_, fun o => ⟨o, set_of_none hread o⟩⟩
  | some v =>
    refine .inl fun o => ?_
    obtain ⟨p, hp, -⟩ := set_of_some hread o
    exact ⟨p, hp⟩

/-- The options that a call leaves, also if it fails. -/
def after (o : Options α) (c : String × String) : Options α :=
  match set c.1 c.2 o with
  | .ok _ p => p
  | .error _ p => p

theorem settings_after (o : Options α) (c : String × String) :
    (o.after c).settings = o.settings.map fun r =>
      (r.1, if r.1 = c.1 then (reading? c.1 c.2).getD r.2 else r.2) := by
  unfold after
  rcases set_cases o c.1 c.2 with ⟨hread, hset⟩ | ⟨v, p, hread, hset, hsettings⟩
  · rw [hset, hread]
    simp
  · rw [hset, hread]
    exact hsettings

/-! ## A series of calls -/

/-- The options after a series of calls. -/
def afterAll (o : Options α) (calls : List (String × String)) : Options α := calls.foldl after o

theorem afterAll_concat (o : Options α) (calls : List (String × String)) (c : String × String) :
    o.afterAll (calls ++ [c]) = (o.afterAll calls).after c := by
  unfold afterAll
  rw [List.foldl_append, List.foldl_cons, List.foldl_nil]

variable (α) in
/-- The text for the option called `name` if the call has one and it is accepted. -/
def acceptedText? (name : String) (c : String × String) : Option String :=
  if c.1 = name ∧ (reading? name c.2 : Option (Setting α)).isSome then some c.2 else none

variable (α) in
/-- The last text for the option called `name` that is accepted. -/
def lastText? (name : String) (calls : List (String × String)) : Option String :=
  (calls.filterMap (acceptedText? α name)).getLast?

/-- What the calls make of the value `v` of the option called `name`. -/
def settled (name : String) (v : Setting α) (calls : List (String × String)) : Setting α :=
  ((lastText? α name calls).bind (reading? name)).getD v

theorem lastText?_concat (name : String) (calls : List (String × String)) (c : String × String) :
    lastText? α name (calls ++ [c]) = (acceptedText? α name c).or (lastText? α name calls) := by
  unfold lastText?
  rw [List.filterMap_append, List.getLast?_append]
  cases h : acceptedText? α name c <;> simp [h]

theorem exists_of_lastText? {name text : String} {calls : List (String × String)}
    (h : lastText? α name calls = some text) :
    ∃ v : Setting α, reading? name text = some v := by
  obtain ⟨c, -, hc⟩ := List.mem_filterMap.mp (List.mem_of_getLast? h)
  unfold acceptedText? at hc
  split at hc
  · rename_i haccepted
    cases hc
    exact Option.isSome_iff_exists.mp haccepted.2
  · cases hc

/-- Calls for other names do not count. -/
theorem lastText?_filter (name : String) (calls : List (String × String)) :
    lastText? α name (calls.filter fun c => c.1 = name) = lastText? α name calls := by
  unfold lastText?
  rw [List.filterMap_filter]
  congr 1
  refine List.filterMap_congr fun c _ => ?_
  by_cases h : c.1 = name
  · simp [h]
  · simp [h, acceptedText?]

theorem settled_concat (name : String) (v : Setting α) (calls : List (String × String))
    (c : String × String) :
    settled name v (calls ++ [c]) =
      if name = c.1 then (reading? c.1 c.2).getD (settled name v calls)
      else settled name v calls := by
  unfold settled
  rw [lastText?_concat]
  by_cases hname : name = c.1
  · subst hname
    rw [if_pos rfl]
    unfold acceptedText?
    cases hread : (reading? c.1 c.2 : Option (Setting α)) with
    | none => simp
    | some w => simp [hread]
  · have hother : acceptedText? α name c = none := if_neg fun h => hname h.1.symm
    rw [if_neg hname, hother, Option.none_or]

/-- Every option has the value that its own calls make of the first one. -/
theorem settings_afterAll (o : Options α) (calls : List (String × String)) :
    (o.afterAll calls).settings = o.settings.map fun r => (r.1, settled r.1 r.2 calls) := by
  induction calls using List.reverseRecOn with
  | nil =>
    show o.settings = _
    exact (List.map_id o.settings).symm
  | append_singleton calls c ih =>
    rw [afterAll_concat, settings_after, ih, List.map_map]
    refine List.map_congr_left fun r _ => ?_
    rw [settled_concat]
    rfl

theorem get?_afterAll (o : Options α) (calls : List (String × String)) (name : String) :
    (o.afterAll calls).get? name = (o.get? name).map fun v => settled name v calls := by
  unfold get?
  rw [settings_afterAll]
  exact lookup_map_values (fun name v => settled name v calls) o.settings name

/-- The order of calls for different names does not matter. -/
theorem afterAll_congr (o : Options α) {calls calls' : List (String × String)}
    (h : ∀ name, calls.filter (fun c => c.1 = name) = calls'.filter fun c => c.1 = name) :
    o.afterAll calls = o.afterAll calls' := by
  refine ext_get? fun name => ?_
  have hlast : lastText? α name calls = lastText? α name calls' := by
    rw [← lastText?_filter, h, lastText?_filter]
  rw [get?_afterAll, get?_afterAll]
  unfold settled
  rw [hlast]

theorem after_comm (o : Options α) {c d : String × String} (h : c.1 ≠ d.1) :
    (o.after c).after d = (o.after d).after c := by
  show o.afterAll [c, d] = o.afterAll [d, c]
  refine o.afterAll_congr fun name => ?_
  by_cases hc : c.1 = name
  · have hd : d.1 ≠ name := fun hd => h (hc.trans hd.symm)
    simp [hc, hd]
  · simp [List.filter_cons, hc]

/-! ## The name of the solver -/

theorem readChoice_trim {text : String} {c : SolverChoice} (h : readChoice text = .ok c) :
    readChoice (Text.trim text) = .ok c := by
  unfold readChoice at h ⊢
  rw [Text.trim_trim]
  split at h
  · exact h
  · cases h

/-- A text that is accepted for the solver names one, and is stored without blanks around it. -/
theorem readChoice_of_reading? {text : String} {v : Setting α}
    (h : reading? "subproblem_name" text = some v) :
    v = .solver (Text.trim text) ∧ ∃ c, readChoice text = .ok c := by
  have hread : (SolverChoice.ofName? (Text.trim text)).map
      (fun _ => (.solver (Text.trim text) : Setting α)) = some v := h
  obtain ⟨c, hc, rfl⟩ := Option.map_eq_some_iff.mp hread
  refine ⟨rfl, c, ?_⟩
  unfold readChoice
  rw [hc]

/-- The choice is that of the last accepted text, or else the first one. -/
theorem choice_afterAll (o : Options α) (calls : List (String × String)) :
    (o.afterAll calls).choice =
      match lastText? α "subproblem_name" calls with
      | some text => readChoice text
      | none => o.choice := by
  have hname := o.get?_afterAll calls "subproblem_name"
  rw [get?_solver, get?_solver, Option.map_some] at hname
  have hsettled := Option.some.inj hname
  unfold choice
  cases hlast : lastText? α "subproblem_name" calls with
  | none =>
    rw [settled, hlast] at hsettled
    rw [Setting.solver.inj hsettled]
  | some text =>
    obtain ⟨v, hv⟩ := exists_of_lastText? hlast
    obtain ⟨rfl, c, hc⟩ := readChoice_of_reading? hv
    rw [settled, hlast, Option.bind_some, hv] at hsettled
    rw [Setting.solver.inj hsettled]
    exact (readChoice_trim hc).trans hc.symm

theorem exists_choice_afterAll {o : Options α} {c : SolverChoice} (h : o.choice = .ok c)
    (calls : List (String × String)) : ∃ c', (o.afterAll calls).choice = .ok c' := by
  rw [choice_afterAll]
  cases hlast : lastText? α "subproblem_name" calls with
  | none => exact ⟨c, h⟩
  | some text =>
    obtain ⟨v, hv⟩ := exists_of_lastText? hlast
    exact (readChoice_of_reading? hv).2

/-! ## All together -/

/-- Options are set apart from each other, and the solver that they name can always be read. -/
structure SetApart (α : Type) [Scalar α] [Numeral α] : Prop where
  /-- The options are no more than what stands under their names. -/
  ext (o p : Options α) : (∀ name, o.get? name = p.get? name) → o = p
  /-- A call that fails leaves the options as they are. -/
  failed (o p : Options α) (name text : String) (e : Error) : set name text o = .error e p →
    (reading? name text : Option (Setting α)) = none ∧ e = refusal α name text ∧ p = o
  /-- A call that succeeds sets the option that it names and no other. -/
  succeeded (o p : Options α) (name text : String) : set name text o = .ok () p →
    (∃ v, reading? name text = some v ∧ p.get? name = some v) ∧
      ∀ other ≠ name, p.get? other = o.get? other
  /-- What a call answers does not depend on the options. -/
  answer (name text : String) : (∀ o : Options α, ∃ p, set name text o = .ok () p) ∨
    ∃ e, ∀ o : Options α, ∃ p, set name text o = .error e p
  commute (o : Options α) (c d : String × String) : c.1 ≠ d.1 →
    (o.after c).after d = (o.after d).after c
  latest (o : Options α) (calls : List (String × String)) (name : String) :
    (o.afterAll calls).get? name =
      match lastText? α name calls with
      | some text => reading? name text
      | none => o.get? name
  interleaved (o : Options α) (calls calls' : List (String × String)) :
    (∀ name, calls.filter (fun c => c.1 = name) = calls'.filter fun c => c.1 = name) →
      o.afterAll calls = o.afterAll calls'
  choice (calls : List (String × String)) :
    (∃ c, (standard.afterAll calls : Options α).choice = .ok c) ∧
      (standard.afterAll calls : Options α).choice =
        match lastText? α "subproblem_name" calls with
        | some text => readChoice text
        | none => .ok .spectral
  valid (calls : List (String × String)) (reason : String) :
    (standard.afterAll calls : Options α).validate ≠
      .error (.invalidOption "subproblem_name" reason)

variable [Scalar α]

/-- For every options and calls, what a call sets is the option that it names, an option has the
value of its own last accepted text, and the solver that the options name is the one that was
accepted last. -/
theorem set_apart : SetApart α where
  ext _ _ := ext_get?
  failed _ _ _ _ _ := eq_of_set_error
  succeeded _ _ _ _ := get?_of_set
  answer := exists_answer
  commute o _ _ := o.after_comm
  latest o calls name := by
    rw [get?_afterAll]
    unfold settled
    cases hlast : lastText? α name calls with
    | none => simp
    | some text =>
      obtain ⟨v, hv⟩ := exists_of_lastText? hlast
      obtain ⟨w, hw⟩ := exists_get?_of_reading? hv o
      rw [hw, Option.map_some, Option.bind_some, hv]
      exact hv.symm
  interleaved o _ _ := o.afterAll_congr
  choice calls := by
    refine ⟨exists_choice_afterAll choice_standard calls, ?_⟩
    rw [choice_afterAll, choice_standard]
  valid calls reason := by
    obtain ⟨c, hc⟩ := exists_choice_afterAll (choice_standard (α := α)) calls
    exact validate_ne_of_choice hc reason

/-- Doubles. The name of the solver is written in capitals and between blanks, and a later one is
not accepted. -/
theorem set_apart_doubles :
    let o : Options Float := standard
    let calls := [("subproblem_name", " LBFGS "), ("max_outer_iterations", "7"), ("rho", "fast"),
      ("subproblem_name", "simplex"), ("max_outer_iterations", "-3")]
    SetApart Float ∧
      (∃ e p, set "rho" "fast" o = .error e p ∧ p = o) ∧
      (∃ p, set "verbosity" "1" o = .ok () p ∧ p.get? "rho" = o.get? "rho") ∧
      (o.after ("rho", "0.5")).after ("verbosity", "1") =
        (o.after ("verbosity", "1")).after ("rho", "0.5") ∧
      (o.afterAll calls).get? "max_outer_iterations" = some (.count 7) ∧
      (o.afterAll calls).choice = .ok .quasiNewton := by
  intro o calls
  have h : SetApart Float := set_apart
  have hread : (reading? "rho" "fast" : Option (Setting Float)) = none := by decide +kernel
  have hrefused := set_of_none hread o
  have hcount : lastText? Float "max_outer_iterations" calls = some "7" := by decide +kernel
  have hsolver : lastText? Float "subproblem_name" calls = some " LBFGS " := by decide +kernel
  have hset : set "verbosity" "1" o = .ok () { o with verbosity := 1 } := by rfl
  refine ⟨h, ⟨_, _, hrefused, (h.failed o _ _ _ _ hrefused).2.2⟩, ⟨_, hset, ?_⟩, ?_, ?_, ?_⟩
  · exact (h.succeeded o _ _ _ hset).2 "rho" (by decide)
  · exact h.commute o _ _ (by decide)
  · rw [h.latest, hcount]
    rfl
  · rw [(h.choice calls).2, hsolver]
    decide +kernel

end Options

end LogBarrier
