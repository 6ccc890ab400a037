import TableAudit.Proofs.Fault
import TableAudit.Proofs.Json.Documents
import TableAudit.Proofs.Rule.Shorthand

/-!
# Two ways of writing a rule

A draft is written as pieces between bars and as an object. The object is read as the rule that
the draft stands for. The pieces are read alike if every setting of the draft is plain, and where
the object is read as a rule, the pieces are read as the same one only then.
-/

namespace TableAudit.Rule

open TableAudit.Text (Trimmed trimChars splitAll cutAt? isBlank)

variable {r : Draft} {x : String × Setting} {settings : List (String × Setting)}
  {ps : Properties} {σ : Setting} {key : String} {v : Value} {raw : List Char} {rule : Rule}

/-! ### Names of properties -/

/-- The names of the properties that a type has. -/
def Demands.keys : Demands → List String
  | .text .. => ["min", "max", "length", "pattern", "empty", "exists", "enum"]
  | .number .. => ["min", "max", "integer", "positive", "negative", "convert"]
  | .date .. => ["convert", "expire"]
  | .boolean .. => ["convert"]
  | .email => []
  | .choice .. => ["values"]

/-- A name that can stand in a piece. -/
structure IsName (key : String) : Prop where
  ne_type : key ≠ "type"
  blank : ∀ c ∈ key.toList, isBlank c = false
  colon : ':' ∉ key.toList
  bar : '|' ∉ key.toList

theorem isName_of_all {key : String} (h : (key != "type" &&
    key.toList.all fun c => !isBlank c && c != ':' && c != '|') = true) : IsName key := by
  simp only [Bool.and_eq_true, List.all_eq_true, Bool.not_eq_true', bne_iff_ne, ne_eq] at h
  exact ⟨h.1, fun c hc => (h.2 c hc).1.1, fun hc => (h.2 ':' hc).1.2 rfl,
    fun hc => (h.2 '|' hc).2 rfl⟩

theorem given_keys {α : Type} (key : String) (f : α → Setting) (o : Option α) :
    ((given key f o).map Prod.fst).Sublist [key] := by
  cases o with
  | none => exact List.nil_sublist [key]
  | some a => exact List.Sublist.refl [key]

namespace Draft

theorem settings_keys (r : Draft) :
    (r.settings.map Prod.fst).Sublist ("optional" :: "required" :: r.demands.keys) := by
  have hflags := (given_keys "optional" Setting.flag r.optional).append
    (given_keys "required" Setting.flag r.required)
  rw [Draft.settings, List.map_append, List.map_append]
  refine hflags.append ?_
  cases r.demands with
  | text =>
      simp only [Demands.settings, List.map_append]
      exact ((((((given_keys "min" _ _).append (given_keys "max" _ _)).append
        (given_keys "length" _ _)).append (given_keys "pattern" _ _)).append
          (given_keys "empty" _ _)).append (given_keys "exists" _ _)).append (given_keys "enum" _ _)
  | number =>
      simp only [Demands.settings, List.map_append]
      exact (((((given_keys "min" _ _).append (given_keys "max" _ _)).append
        (given_keys "integer" _ _)).append (given_keys "positive" _ _)).append
          (given_keys "negative" _ _)).append (given_keys "convert" _ _)
  | date =>
      simp only [Demands.settings, List.map_append]
      exact (given_keys "convert" _ _).append (given_keys "expire" _ _)
  | boolean => exact given_keys "convert" _ _
  | email => exact List.Sublist.refl _
  | choice => exact List.Sublist.refl _

theorem keys_nodup (r : Draft) : (r.settings.map Prod.fst).Nodup := by
  refine r.settings_keys.nodup ?_
  cases r.demands <;> simp [Demands.keys]

theorem isName_of_mem (h : x ∈ r.settings) : IsName x.1 := by
  have hnames : ("optional" :: "required" :: r.demands.keys).all (fun key => key != "type" &&
      key.toList.all fun c => !isBlank c && c != ':' && c != '|') = true := by
    cases r.demands <;> rfl
  exact isName_of_all
    (List.all_eq_true.mp hnames x.1 (r.settings_keys.mem (List.mem_map_of_mem h)))

theorem lookup_of_mem (h : x ∈ r.settings) : r.settings.lookup x.1 = some x.2 :=
  Json.lookup_of_nodup r.keys_nodup h

end Draft

/-! ### Pieces between bars -/

theorem set_new (h : key ∉ ps.map Prod.fst) (v : Value) : ps.set key v = ps ++ [(key, v)] := by
  induction ps with
  | nil => rfl
  | cons p ps ih =>
      rw [List.map_cons, List.mem_cons, not_or] at h
      rw [Properties.set, if_neg (Ne.symm h.1), ih h.2, List.cons_append]

/-- A piece with a new name enters the property that it spells. -/
theorem addPiece_new (hk : IsName key) (ht : Trimmed raw) (hnew : key ∉ ps.map Prod.fst) :
    addPiece ps (key.toList ++ ':' :: raw) = (scalar raw).map fun v => ps ++ [(key, v)] := by
  have hkey : Trimmed key.toList := TableAudit.Text.trimmed_of_not_blank hk.blank
  have htrim : trimChars (key.toList ++ ':' :: raw) = key.toList ++ ':' :: raw :=
    (hkey.join ht (by decide)).trimChars
  have hempty : (key.toList ++ ':' :: raw).isEmpty = false := by simp
  simp only [addPiece, htrim, hempty, TableAudit.Text.cutAt?_append hk.colon, hkey.trimChars,
    String.ofList_toList, set_new hnew]
  rfl

/-- A setting as it is read in the short way. -/
def read? (x : String × Setting) : Except Fault (String × Value) :=
  (scalar x.2.short).map fun v => (x.1, v)

/-- Pieces with different names are read one after the other. -/
theorem foldlM_pieces (hset : ∀ x ∈ settings, IsName x.1 ∧ x.2.Writable)
    (hkeys : (ps.map Prod.fst ++ settings.map Prod.fst).Nodup) :
    (settings.map piece).foldlM addPiece ps = (settings.mapM read?).map (ps ++ ·) := by
  induction settings generalizing ps with
  | nil =>
      change Except.ok ps = Except.ok (ps ++ [])
      rw [List.append_nil]
  | cons x settings ih =>
      obtain ⟨⟨hname, hw⟩, hset⟩ := List.forall_mem_cons.mp hset
      have hnew : x.1 ∉ ps.map Prod.fst := by
        rw [List.nodup_append] at hkeys
        exact fun hmem => hkeys.2.2 _ hmem _ List.mem_cons_self rfl
      have hkeys' (v : Value) :
          ((ps ++ [(x.1, v)]).map Prod.fst ++ settings.map Prod.fst).Nodup := by
        rw [List.map_append, List.append_assoc]
        exact hkeys
      rw [List.map_cons, List.foldlM_cons, piece, addPiece_new hname (trimmed_short hw) hnew,
        List.mapM_cons, read?]
      cases scalar x.2.short with
      | error e => rfl
      | ok v =>
          refine (ih hset (hkeys' v)).trans ?_
          change _ = Except.map (ps ++ ·) (settings.mapM read? >>= fun qs => .ok ((x.1, v) :: qs))
          cases settings.mapM read? with
          | error e => rfl
          | ok qs => exact congrArg Except.ok (List.append_assoc ps [(x.1, v)] qs)

namespace Draft

/-- The draft can be put between bars. -/
def Writable (r : Draft) : Prop :=
  ∀ x ∈ r.settings, x.2.Writable

/-- Every setting of the draft is said by the short way. -/
def Plain (r : Draft) : Prop :=
  ∀ x ∈ r.settings, x.2.Plain

theorem trimmed_type (d : Demands) : Trimmed d.type.toList :=
  TableAudit.Text.trimmed_of_not_blank fun c hc => (d.type_chars c hc).1

theorem piece_chars (hx : x ∈ r.settings) (hw : x.2.Writable) :
    Trimmed (piece x) ∧ '|' ∉ piece x := by
  have hname := isName_of_mem hx
  constructor
  · exact (TableAudit.Text.trimmed_of_not_blank hname.blank).join (trimmed_short hw) (by decide)
  · rw [piece, List.mem_append, List.mem_cons, not_or, not_or]
    exact ⟨hname.bar, by decide, bar_notMem_short hw⟩

theorem trimmed_spelled (h : r.Writable) : Trimmed r.spelled := by
  refine (trimmed_type r.demands).flatMap (fun p hp => ?_) (by decide)
  obtain ⟨x, hx, rfl⟩ := List.mem_map.mp hp
  exact (piece_chars hx (h x hx)).1

theorem ofShort_spelled (h : r.Writable) : ofShort r.spelled =
    (r.settings.mapM read?).map (("type", .text r.demands.type) :: ·) := by
  have hbar : '|' ∉ r.demands.type.toList := fun hc => (r.demands.type_chars '|' hc).2.1 rfl
  have hsplit : splitAll '|' r.spelled = r.demands.type.toList :: r.settings.map piece := by
    refine TableAudit.Text.splitAll_flatMap hbar fun p hp => ?_
    obtain ⟨x, hx, rfl⟩ := List.mem_map.mp hp
    exact (piece_chars hx (h x hx)).2
  rw [ofShort, hsplit]
  simp only [(trimmed_type r.demands).trimChars, String.ofList_toList]
  -- no setting takes the place of the type, so every piece enters a new property
  refine foldlM_pieces (fun x hx => ⟨isName_of_mem hx, h x hx⟩) ?_
  refine List.nodup_cons.mpr ⟨fun hmem => ?_, r.keys_nodup⟩
  obtain ⟨x, hx, heq⟩ := List.mem_map.mp hmem
  exact (isName_of_mem hx).ne_type heq

/-- The properties that the pieces of a draft spell. -/
theorem properties_short (h : r.Writable) : properties r.short =
    ((r.settings.mapM read?).map (("type", .text r.demands.type) :: ·)).mapError .fault := by
  have htrim : trimChars r.short.toList = r.spelled := by
    rw [Draft.short, String.toList_ofList, (trimmed_spelled h).trimChars]
  obtain ⟨c, cs, hcs⟩ := List.exists_cons_of_ne_nil r.demands.type_ne_nil
  have hc : c ≠ '\x7b' := (r.demands.type_chars c (hcs ▸ List.mem_cons_self)).2.2
  rw [← ofShort_spelled h, properties, htrim, spelled, hcs, List.cons_append]
  split
  next heq => cases heq
  next heq => exact absurd (List.cons.inj heq).1 hc
  next => rfl

end Draft

/-! ### Objects -/

theorem isJson_value (h : σ.Writable) : Json.IsJson σ.value := by
  match σ with
  | .flag b => exact .bool b
  | .number (.int n) => exact .int n
  | .number (.float x) => exact .float h
  | .text s => exact .text s
  | .span s => exact .text s
  | .texts items =>
      refine .list fun v hv => ?_
      obtain ⟨s, -, rfl⟩ := List.mem_map.mp hv
      exact .text s

theorem write?_object {fields : List (String × Value)} {l : Json.Layout} {s : String}
    (h : Json.write? l (.object fields) = some s) :
    ∃ cs, s.toList = '\x7b' :: (cs ++ ['\x7d']) := by
  rw [Value.object, Json.write?, Option.map_eq_some_iff] at h
  obtain ⟨texts, -, rfl⟩ := h
  refine ⟨(l.comma.intercalate texts).toList, ?_⟩
  rw [String.toList_append, String.toList_append]
  rfl

theorem ofEntries_object (fields : List (String × Value)) :
    ofEntries (fields.map fun f => (.text f.1, f.2)) = fields := by
  rw [ofEntries, List.filterMap_map]
  exact List.filterMap_some

namespace Draft

theorem isJson_fields (h : r.Writable) : Json.IsJson (.object r.fields) := by
  refine .object (List.nodup_cons.mpr ⟨fun hmem => ?_, ?_⟩) fun f hf => ?_
  · rw [List.map_map] at hmem
    obtain ⟨x, hx, heq⟩ := List.mem_map.mp hmem
    exact (isName_of_mem hx).ne_type heq
  · rw [List.map_map]
    exact r.keys_nodup
  · obtain rfl | hf := List.mem_cons.mp hf
    · exact .text _
    · obtain ⟨x, hx, rfl⟩ := List.mem_map.mp hf
      exact isJson_value (h x hx)

/-- Whether every integer in the draft has few enough digits. -/
theorem fits_fields (r : Draft) :
    Json.fits (.object r.fields) = r.settings.all fun x => Json.fits x.2.value := by
  rw [Json.fits_object, fields, List.all_cons, List.all_map]
  rfl

/-- The object of a draft has the draft's properties. -/
theorem exists_object (h : r.Writable) (ascii : Bool) :
    ∃ o, Json.write? (Json.layout ascii) (.object r.fields) = some o ∧ properties o =
      if Json.fits (.object r.fields) then .ok r.fields else .error (.fault .digitLimit) := by
  obtain ⟨o, ho, hread⟩ := (isJson_fields h).read ascii
  refine ⟨o, ho, ?_⟩
  obtain ⟨cs, hcs⟩ := write?_object ho
  have htrim : trimChars o.toList = o.toList := by
    refine Trimmed.trimChars ⟨?_, ?_⟩
    · rw [hcs]
      rintro _ ⟨⟩
      decide
    · rw [hcs, ← List.cons_append, List.getLast?_concat]
      rintro _ ⟨⟩
      decide
  have hobject : properties o = ofObject o := by
    rw [properties, htrim, hcs]
    change ofObject (String.ofList ('\x7b' :: (cs ++ ['\x7d']))) = _
    rw [← hcs, String.ofList_toList]
  rw [hobject, ofObject, hread]
  by_cases hfits : Json.fits (.object r.fields) = true
  · rw [if_pos hfits, if_pos hfits]
    exact congrArg Except.ok (ofEntries_object r.fields)
  · rw [if_neg hfits, if_neg hfits]

end Draft

/-! ### Rules from pieces -/

/-- The values of the settings are read without complaint. -/
def Accepted (ps : Properties) (settings : List (String × Setting)) : Prop :=
  ∀ x ∈ settings, ∀ v, ps.get? x.1 = some v → x.2.Accepts v

theorem accepted_given {α : Type} {f : α → Setting} {o : Option α}
    (h : ∀ a, o = some a → ∀ v, ps.get? key = some v → (f a).Accepts v) :
    Accepted ps (given key f o) := by
  cases o with
  | none => exact fun x hx => by cases hx
  | some a => exact List.forall_mem_singleton.mpr (h a rfl)

theorem accepts_number {o : Option TableAudit.Number} (h : number? ps key = .ok o)
    (n : TableAudit.Number) (hv : ps.get? key = some v) : (Setting.number n).Accepts v := by
  rw [number?, Properties.get, hv, Option.getD_some] at h
  split at h
  next => exact Or.inl rfl
  next => exact Or.inr rfl
  next => exact Or.inr rfl
  next => cases h

theorem accepts_text {o : Option Pattern} (h : pattern? ps = .ok o) (s : String)
    (hv : ps.get? "pattern" = some v) : (Setting.text s).Accepts v := by
  rw [pattern?, Properties.get, hv, Option.getD_some] at h
  split at h
  next => exact Or.inl rfl
  next => exact Or.inr rfl
  next => cases h

theorem accepted_flag (ps : Properties) (key : String) (o : Option Bool) :
    Accepted ps (given key .flag o) :=
  accepted_given fun _ _ _ _ => trivial

theorem listed_ok {items l : List String} (h : listed key items = .ok l) : items ≠ [] := by
  rintro rfl
  cases h

namespace Draft

variable {min max length : Option TableAudit.Number} {pattern expiry : Option String}
  {mayBeEmpty unique integer positive negative convert : Option Bool}
  {choices : Option (List String)} {values : List String}

theorem accepted_text {t : Text} (hread : readText ps = .ok t) (hr : r.rule? = .ok rule)
    (hd : r.demands = .text min max length pattern mayBeEmpty unique choices) :
    Accepted ps r.demands.settings := by
  simp only [readText, bind_ok_iff] at hread
  obtain ⟨p, hp, lo, hlo, hi, hhi, len, hlen, _, -, _, -, _, -, _, -, _, -, _, -, hl⟩ := hread
  rw [rule?, hd] at hr
  simp only [bind_ok_iff] at hr
  obtain ⟨_, -, _, -, _, -, _, -, l', hl', -⟩ := hr
  rw [hd]
  simp only [Accepted, Demands.settings, List.forall_mem_append]
  refine ⟨⟨⟨⟨⟨⟨?_, ?_⟩, ?_⟩, ?_⟩, accepted_flag ps _ _⟩, accepted_flag ps _ _⟩, ?_⟩
  · exact accepted_given fun n _ v => accepts_number hlo n
  · exact accepted_given fun n _ v => accepts_number hhi n
  · exact accepted_given fun n _ v => accepts_number hlen n
  · exact accepted_given fun s _ v => accepts_text hp s
  · refine accepted_given fun items hitems v hv => ?_
    rw [hv] at hl
    obtain ⟨_, hmap, -⟩ := bind_ok_iff.mp hl
    obtain ⟨l, htexts, -⟩ := map_ok_iff.mp hmap
    rw [hitems] at hl'
    obtain ⟨_, hlisted, -⟩ := map_ok_iff.mp hl'
    exact ⟨listed_ok hlisted, "enum", l, htexts⟩

theorem accepted_number {n : Number} (hread : readNumber ps = .ok n)
    (hd : r.demands = .number min max integer positive negative convert) :
    Accepted ps r.demands.settings := by
  simp only [readNumber, bind_ok_iff] at hread
  obtain ⟨_, -, lo, hlo, hi, hhi, -⟩ := hread
  rw [hd]
  simp only [Accepted, Demands.settings, List.forall_mem_append]
  refine ⟨⟨⟨⟨⟨?_, ?_⟩, accepted_flag ps _ _⟩, accepted_flag ps _ _⟩, accepted_flag ps _ _⟩,
    accepted_flag ps _ _⟩
  · exact accepted_given fun n _ v => accepts_number hlo n
  · exact accepted_given fun n _ v => accepts_number hhi n

theorem accepted_date {d : Date} (hread : readDate ps = .ok d) (hr : r.rule? = .ok (.date d))
    (hd : r.demands = .date convert expiry) : Accepted ps r.demands.settings := by
  simp only [readDate, bind_ok_iff] at hread
  obtain ⟨e, he, _, -, _, -, heq⟩ := hread
  rw [rule?, hd] at hr
  obtain ⟨e', he', heq'⟩ := bind_ok_iff.mp hr
  -- the rule read is the one that the draft stands for, so it has the draft's span
  have hsame : e = e' := by
    cases heq
    cases heq'
    rfl
  rw [hd]
  refine List.forall_mem_append.mpr ⟨accepted_flag ps _ _, accepted_given fun s hs v hv => ?_⟩
  rw [hs] at he'
  obtain ⟨x, htimed, rfl⟩ := map_ok_iff.mp he'
  rw [expiry?_of_get? hv, hsame] at he
  exact ⟨x, htimed, he⟩

theorem accepted_choice {c : Choice} (hread : readChoice ps = .ok c) (hr : r.rule? = .ok rule)
    (hd : r.demands = .choice values) : Accepted ps r.demands.settings := by
  rw [rule?, hd] at hr
  obtain ⟨_, hlisted, -⟩ := map_ok_iff.mp hr
  rw [hd]
  refine List.forall_mem_singleton.mpr fun v hv => ?_
  rw [readChoice, hv] at hread
  simp only [bind_ok_iff] at hread
  obtain ⟨_, -, l, htexts, -⟩ := hread
  exact ⟨listed_ok hlisted, "values", l, htexts⟩

/-- Where the pieces are read as the rule that the draft stands for, every value is accepted. -/
theorem accepted {R : Setting → Value → Prop} (h : Carries R ps r)
    (hread : ofProperties ps = .ok rule) (hr : r.rule? = .ok rule) : Accepted ps r.settings := by
  have hdemands : Accepted ps r.demands.settings := by
    rw [ofProperties, h.trim_type] at hread
    cases hd : r.demands with
    | text =>
        rw [hd] at hread
        obtain ⟨t, ht, -⟩ := map_ok_iff.mp hread
        exact hd ▸ accepted_text ht hr hd
    | number =>
        rw [hd] at hread
        obtain ⟨n, hn, -⟩ := map_ok_iff.mp hread
        exact hd ▸ accepted_number hn hd
    | date =>
        rw [hd] at hread
        obtain ⟨d, hdate, rfl⟩ := map_ok_iff.mp hread
        exact hd ▸ accepted_date hdate hr hd
    | boolean => exact accepted_flag ps _ _
    | email => exact fun x hx => by cases hx
    | choice =>
        rw [hd] at hread
        obtain ⟨c, hc, -⟩ := map_ok_iff.mp hread
        exact hd ▸ accepted_choice hc hr hd
  have hflags := List.forall_mem_append.mpr ⟨accepted_flag ps "optional" r.optional,
    accepted_flag ps "required" r.required⟩
  exact List.forall_mem_append.mpr ⟨hflags, hdemands⟩

/-! ### Agreement -/

/-- What the object of a draft is read as. -/
def outcome (r : Draft) : Except Refusal Rule :=
  if Json.fits (.object r.fields) then r.rule? else .error (.fault .digitLimit)

theorem ofText_of_properties {o : String} (h : properties o =
    if Json.fits (.object r.fields) then .ok r.fields else .error (.fault .digitLimit)) :
    ofText o = r.outcome := by
  rw [ofText, h, outcome]
  split
  · rw [ok_bind, (declares_fields r).ofProperties]
  · rfl

/-- The pieces of plain settings convey them. -/
theorem mapM_plain (h : ∀ x ∈ settings, x.2.Writable ∧ x.2.Plain)
    (hf : ∀ x ∈ settings, Json.fits x.2.value = true) : ∃ ps, settings.mapM read? = .ok ps ∧
      List.Forall₂ (fun x p => p.1 = x.1 ∧ x.2.Conveyed p.2) settings ps := by
  induction settings with
  | nil => exact ⟨[], rfl, .nil⟩
  | cons x settings ih =>
      obtain ⟨⟨hw, hp⟩, h⟩ := List.forall_mem_cons.mp h
      obtain ⟨hx, hf⟩ := List.forall_mem_cons.mp hf
      obtain ⟨v, hv, hconveyed⟩ := hp.scalar hw hx
      obtain ⟨ps, hps, hall⟩ := ih h hf
      refine ⟨(x.1, v) :: ps, ?_, .cons ⟨rfl, hconveyed⟩ hall⟩
      rw [List.mapM_cons, read?, hv, hps]
      rfl

/-- One integer with too many digits is enough. -/
theorem mapM_long (h : ∀ x ∈ settings, x.2.Writable ∧ x.2.Plain)
    (hf : ¬ ∀ x ∈ settings, Json.fits x.2.value = true) :
    settings.mapM read? = .error .digitLimit := by
  induction settings with
  | nil => exact absurd (fun x hx => by cases hx) hf
  | cons x settings ih =>
      obtain ⟨⟨hw, hp⟩, h⟩ := List.forall_mem_cons.mp h
      rw [List.mapM_cons, read?]
      by_cases hx : Json.fits x.2.value = true
      · obtain ⟨v, hv, -⟩ := hp.scalar hw hx
        rw [hv, ih h fun hall => hf (List.forall_mem_cons.mpr ⟨hx, hall⟩)]
        rfl
      · rw [scalar_long (Bool.eq_false_iff.mpr hx)]
        rfl

/-- The pieces of a plain draft are read like its object. -/
theorem Plain.ofText_short (hp : r.Plain) (h : r.Writable) : ofText r.short = r.outcome := by
  have hall : ∀ x ∈ r.settings, x.2.Writable ∧ x.2.Plain := fun x hx => ⟨h x hx, hp x hx⟩
  rw [ofText, properties_short h, outcome, fits_fields]
  by_cases hf : ∀ x ∈ r.settings, Json.fits x.2.value = true
  · obtain ⟨ps, hps, hconveyed⟩ := mapM_plain hall hf
    have hdeclares : Declares _ r := carries_of_forall₂ hconveyed
    rw [hps, if_pos (List.all_eq_true.mpr hf), ← hdeclares.ofProperties]
    exact ok_bind _ _
  · rw [mapM_long hall hf, if_neg (by rwa [List.all_eq_true])]
    rfl

theorem mapM_ok (h : settings.mapM read? = .ok ps) :
    List.Forall₂ (fun x p => p.1 = x.1 ∧ scalar x.2.short = .ok p.2) settings ps := by
  induction settings generalizing ps with
  | nil =>
      cases h
      exact .nil
  | cons x settings ih =>
      rw [List.mapM_cons] at h
      obtain ⟨p, hp, h⟩ := bind_ok_iff.mp h
      obtain ⟨qs, hqs, h⟩ := bind_ok_iff.mp h
      cases h
      obtain ⟨v, hv, rfl⟩ := map_ok_iff.mp hp
      exact .cons ⟨rfl, hv⟩ (ih hqs)

/-- Pieces that are read as the draft's rule show it plain. -/
theorem plain_of_ofText_short (h : r.Writable) (hr : r.rule? = .ok rule)
    (hs : ofText r.short = .ok rule) : r.Plain := by
  rw [ofText, properties_short h] at hs
  obtain ⟨ps, hps, hread⟩ := bind_ok_iff.mp hs
  cases hm : r.settings.mapM read? with
  | error e =>
      rw [hm] at hps
      cases hps
  | ok qs =>
      rw [hm] at hps
      cases hps
      have hcarries : Carries (fun σ v => scalar σ.short = .ok v) _ r :=
        carries_of_forall₂ (mapM_ok hm)
      have haccepted := accepted hcarries hread hr
      intro x hx
      obtain ⟨v, hget, hv⟩ := hcarries.get? (isName_of_mem hx).ne_type (lookup_of_mem hx)
      exact (haccepted x hx v hget).plain (h x hx) hv

/-- The object of a draft is read as the rule that the draft stands for. The short way is read
like the object if every setting is plain, and where the object is accepted, only then. -/
theorem short_reads_like_object (r : Draft) (h : r.Writable) (ascii : Bool) :
    ∃ o, Json.write? (Json.layout ascii) (.object r.fields) = some o ∧
      ofText o = (if Json.fits (.object r.fields) then r.rule? else .error (.fault .digitLimit)) ∧
      (r.Plain → ofText r.short = ofText o) ∧
      ∀ rule, ofText o = .ok rule → ofText r.short = .ok rule → r.Plain := by
  obtain ⟨o, ho, hproperties⟩ := exists_object h ascii
  have houtcome := ofText_of_properties hproperties
  refine ⟨o, ho, houtcome, fun hp => (hp.ofText_short h).trans houtcome.symm, ?_⟩
  intro rule hobject hshort
  refine plain_of_ofText_short h ?_ hshort
  rw [houtcome, outcome] at hobject
  split at hobject
  · exact hobject
  · cases hobject

/-- A span that is a plain number of milliseconds is said both ways. -/
theorem span_of_digits :
    let r : Draft := ⟨none, some true, .date (some true) (some "3600000")⟩
    r.Writable ∧ r.Plain ∧ ∃ o, Json.write? (Json.layout false) (.object r.fields) = some o ∧
      ofText r.short = ofText o := by
  intro r
  have hw : r.Writable := by
    have hspan : Trimmed "3600000".toList :=
      TableAudit.Text.trimmed_of_all rfl
    exact List.forall_mem_cons.mpr ⟨trivial, List.forall_mem_cons.mpr ⟨trivial,
      List.forall_mem_singleton.mpr ⟨hspan, by decide⟩⟩⟩
  have hlength : (Setting.span "3600000").Plain :=
    plain_span (show (3600000 : Int).natAbs < 10 ^ 15 by decide)
  have hp : r.Plain :=
    List.forall_mem_cons.mpr ⟨trivial, List.forall_mem_cons.mpr ⟨trivial,
      List.forall_mem_singleton.mpr hlength⟩⟩
  obtain ⟨o, ho, -, hagree, -⟩ := r.short_reads_like_object hw false
  exact ⟨hw, hp, o, ho, hagree hp⟩

/-- A pattern of digits is read as a number in the short way. -/
theorem digits_no_pattern :
    let r : Draft := ⟨none, none, .text none none none (some "123") none none none⟩
    r.Writable ∧ r.short = "string|pattern:123" ∧
      ofText "string|pattern:123" = .error (.mistake .patternNoText) ∧
      Json.write? (Json.layout true) (.object r.fields) =
        some "\x7b\"type\": \"string\", \"pattern\": \"123\"\x7d" ∧
      ∃ rule, ofText "\x7b\"type\": \"string\", \"pattern\": \"123\"\x7d" = .ok rule := by
  intro r
  have hw : r.Writable :=
    List.forall_mem_singleton.mpr
      ⟨TableAudit.Text.trimmed_of_all rfl, by decide⟩
  have hwrite : Json.write? (Json.layout true) (.object r.fields) =
      some "\x7b\"type\": \"string\", \"pattern\": \"123\"\x7d" := by decide +kernel
  obtain ⟨o, ho, hproperties⟩ := exists_object hw true
  obtain rfl := Option.some.inj (ho.symm.trans hwrite)
  refine ⟨hw, by decide, rfl, hwrite, ?_⟩
  have hrule : r.rule?.isOk = true := by decide +kernel
  rw [ofText_of_properties hproperties]
  change ∃ rule, r.rule? = .ok rule
  cases hr : r.rule? with
  | ok rule => exact ⟨rule, rfl⟩
  | error e =>
      rw [hr] at hrule
      cases hrule

end Draft

end TableAudit.Rule
