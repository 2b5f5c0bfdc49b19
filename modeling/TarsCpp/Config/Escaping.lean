import TarsCpp.Config.ConfigDomain

/-!
# Printing a configuration

`tostr` and `joinConfig`, the lines that a domain is printed in, and how they
are read back: escaped text has no blanks at its ends and no equals sign without
a backslash, so the trimming and the search of the parser leave it alone.
-/

namespace TarsCpp.Config

open CString

/-- One key with its value; an empty value is printed without an equals sign. -/
def tostrParam (sTab : List UInt8) (entry : List UInt8 × List UInt8) :
    Except Failure (List UInt8) := do
  if entry.2 = [] then
    let key ← reverse_parse entry.1
    pure (ascii "  " ++ sTab ++ key ++ ascii "\n")
  else
    let key ← reverse_parse entry.1
    let value ← reverse_parse entry.2
    pure (ascii "  " ++ sTab ++ key ++ ascii "=" ++ value ++ ascii "\n")

mutual

/-- `TC_ConfigDomain::tostr` -/
def TcConfigDomain.tostr (i : Nat) :
    TcConfigDomain → Except Failure (List UInt8)
  | .mk name param subdomain _ => do
      let sTab := (List.replicate i (ascii "  ")).flatten
      let opening ← reverse_parse name
      let params ← param.mapM (tostrParam sTab)
      let domains ← tostrAll (i + 1) subdomain
      let closing ← reverse_parse name
      pure (sTab ++ ascii "<" ++ opening ++ ascii ">\n" ++ params.flatten ++
        domains ++ sTab ++ ascii "</" ++ closing ++ ascii ">\n")

/-- The loop over the subdomains. -/
def TcConfigDomain.tostrAll (i : Nat) :
    List (List UInt8 × TcConfigDomain) → Except Failure (List UInt8)
  | [] => pure []
  | (_, domain) :: rest => do
      let text ← domain.tostr i
      let texts ← tostrAll i rest
      pure (text ++ texts)

end

/-- The subdomains in the order of the map. -/
def TcConfigDomain.getDomainMap (domain : TcConfigDomain) :
    List (List UInt8 × TcConfigDomain) :=
  domain.subdomain.mergeSort (fun entry other => entry.1 ≤ other.1)

/-- `TC_Config::tostr` -/
def tostr (root : TcConfigDomain) : Except Failure (List UInt8) :=
  TcConfigDomain.tostrAll 0 root.getDomainMap

/-- `TC_Config::joinConfig` -/
def joinConfig (root cf : TcConfigDomain) (bUpdate : Bool) :
    Except Failure TcConfigDomain := do
  let own ← tostr root
  let other ← tostr cf
  parseString (if bUpdate then own ++ other else other ++ own)

/-- Text that `reverse_parse` does not reject. -/
def Plain (s : List UInt8) : Prop := 60 ∉ s ∧ 62 ∉ s

def escapes (s : List UInt8) : List UInt8 := s.flatMap escape

theorem reverse_parse_eq_ok_iff {s text : List UInt8} :
    reverse_parse s = .ok text ↔ Plain s ∧ text = escapes s := by
  rw [reverse_parse, Plain, ← not_or]
  split
  · next bracket => simp [bracket]
  · next plain => simp [plain, escapes, eq_comm]

theorem escape_cases (c : UInt8) :
    (c ∉ [92, 13, 10, 9, 61] ∧ escape c = [c]) ∨
      ∃ d ∈ [92, 114, 110, 116, 61], escape c = [92, d] ∧
        escaped d = some c ∧ (d = 92 ↔ c = 92) ∧
        c ∈ [92, 13, 10, 9, 61] := by
  by_cases special : c ∈ [92, 13, 10, 9, 61]
  · right
    rcases List.mem_cons.mp special with rfl | special
    · exact ⟨92, by decide, by decide, by decide, by decide, by decide⟩
    rcases List.mem_cons.mp special with rfl | special
    · exact ⟨114, by decide, by decide, by decide, by decide, by decide⟩
    rcases List.mem_cons.mp special with rfl | special
    · exact ⟨110, by decide, by decide, by decide, by decide, by decide⟩
    rcases List.mem_cons.mp special with rfl | special
    · exact ⟨116, by decide, by decide, by decide, by decide, by decide⟩
    rcases List.mem_cons.mp special with rfl | special
    · exact ⟨61, by decide, by decide, by decide, by decide, by decide⟩
    · cases special
  · left
    refine ⟨special, ?_⟩
    simp only [List.mem_cons, not_or] at special
    obtain ⟨slash, cr, lf, tab, sign, _⟩ := special
    rw [escape, if_neg slash, if_neg cr, if_neg lf, if_neg tab, if_neg sign]

theorem unescape_cons {c : UInt8} (ordinary : c ≠ 92) (rest : List UInt8) :
    unescape (c :: rest) = (unescape rest).map (c :: ·) := by
  cases rest with
  | nil => simp [unescape, ordinary]
  | cons d rest =>
      rw [unescape, if_neg ordinary]
      cases unescape (d :: rest) <;> rfl

theorem unescape_escape (c : UInt8) (rest : List UInt8) :
    unescape (escape c ++ rest) = (unescape rest).map (c :: ·) := by
  rcases escape_cases c with ⟨ordinary, printed⟩ | ⟨d, _, printed, reads, _⟩
  · rw [printed]
    refine unescape_cons (fun slash => ordinary ?_) rest
    rw [slash]
    decide
  · rw [printed]
    change unescape (92 :: d :: rest) = _
    rw [unescape, if_pos rfl, reads]
    cases unescape rest <;> rfl

theorem unescape_escapes (s rest : List UInt8) :
    unescape (escapes s ++ rest) = (unescape rest).map (s ++ ·) := by
  induction s with
  | nil => exact Option.map_id'.symm
  | cons c s ih =>
      rw [escapes, List.flatMap_cons, List.append_assoc, unescape_escape]
      rw [← escapes, ih, Option.map_map]
      rfl

/-- An escaped character does not end the name. -/
theorem separate_escape (backslash : Bool) (c : UInt8) (rest : List UInt8) :
    separate backslash (escape c ++ rest) =
      (separate (c = 92) rest).map fun found =>
        (escape c ++ found.1, found.2) := by
  have cons (flag : Bool) (b : UInt8) (rest : List UInt8)
      (kept : ¬ (b = 61 ∧ flag = false)) :
      separate flag (b :: rest) =
        (separate (b = 92) rest).map fun found => (b :: found.1, found.2) := by
    rw [separate, if_neg kept]
    cases separate (b = 92) rest <;> rfl
  rcases escape_cases c with ⟨ordinary, printed⟩ | ⟨d, _, printed, _, same, _⟩
  · rw [printed]
    refine cons backslash c rest fun both => ordinary ?_
    rw [both.1]
    decide
  · rw [printed]
    change separate backslash (92 :: d :: rest) = _
    rw [cons backslash 92 _ (by simp), cons _ d rest (by simp)]
    rw [decide_eq_decide.mpr same, Option.map_map]
    rfl

theorem separate_escapes (backslash : Bool) (s rest : List UInt8) :
    separate backslash (escapes s ++ rest) =
      (separate (s.getLast?.elim backslash (· = 92)) rest).map fun found =>
        (escapes s ++ found.1, found.2) := by
  induction s generalizing backslash with
  | nil => exact Option.map_id'.symm
  | cons c s ih =>
      rw [escapes, List.flatMap_cons, List.append_assoc, separate_escape]
      rw [← escapes, ih, Option.map_map, List.getLast?_cons]
      cases s.getLast? with
      | none => simp [Function.comp_def]
      | some last => simp [Function.comp_def]

/-- No blank stands at the ends. -/
def Framed (s : List UInt8) : Prop :=
  ∀ c, s.head? = some c ∨ s.getLast? = some c → c ∉ blanks

theorem trim_eq_iff {s : List UInt8} : trim s = s ↔ Framed s := by
  constructor
  · intro same c ends blank
    rcases ends with head | last
    · obtain ⟨rest, rfl⟩ := List.head?_eq_some_iff.mp head
      have shorter : (trim (c :: rest)).length ≤ rest.length := by
        rw [trim, List.dropWhile_cons_of_pos (by simpa using blank)]
        exact (List.rdropWhile_prefix _ _).length_le.trans
          (List.dropWhile_suffix _).length_le
      rw [same, List.length_cons] at shorter
      exact absurd shorter (Nat.not_succ_le_self _)
    · have nonempty : trim s ≠ [] := by
        rw [same]
        rintro rfl
        cases last
      have visible : (trim s).getLast nonempty ∉ blanks := fun inside =>
        List.rdropWhile_last_not (· ∈ blanks) _ nonempty
          (decide_eq_true inside)
      have final : (trim s).getLast nonempty = c := by
        rw [← Option.some_inj, ← List.getLast?_eq_some_getLast, same, last]
      rw [final] at visible
      exact visible blank
  · intro framed
    have front : s.dropWhile (· ∈ blanks) = s := by
      cases s with
      | nil => rfl
      | cons c rest =>
          refine List.dropWhile_cons_of_neg ?_
          simpa using framed c (.inl rfl)
    rw [trim, front, List.rdropWhile_eq_self_iff]
    intro nonempty
    simpa using framed _ (.inr (List.getLast?_eq_some_getLast nonempty))

theorem trim_indent {tab : List UInt8} (blank : ∀ c ∈ tab, c ∈ blanks)
    (s : List UInt8) : trim (tab ++ s) = trim s := by
  have dropped : (tab ++ s).dropWhile (· ∈ blanks) =
      s.dropWhile (· ∈ blanks) := by
    rw [List.dropWhile_append_of_pos (by simpa using blank)]
  rw [trim, dropped, trim]

theorem Framed.append {s t : List UInt8} (first : Framed s)
    (second : Framed t) : Framed (s ++ t) := by
  intro c ends
  rw [List.head?_append, List.getLast?_append] at ends
  rcases ends with head | last
  · rcases Option.or_eq_some_iff.mp head with here | ⟨_, behind⟩
    · exact first c (.inl here)
    · exact second c (.inl behind)
  · rcases Option.or_eq_some_iff.mp last with here | ⟨_, before⟩
    · exact second c (.inr here)
    · exact first c (.inr before)

theorem framed_singleton {c : UInt8} (visible : c ∉ blanks) : Framed [c] := by
  rintro d (head | last)
  · cases head
    exact visible
  · cases last
    exact visible

/-- No space stands at the ends. -/
def Unspaced (s : List UInt8) : Prop :=
  s.head? ≠ some 32 ∧ s.getLast? ≠ some 32

theorem Framed.unspaced {s : List UInt8} (framed : Framed s) : Unspaced s :=
  ⟨fun head => framed 32 (.inl head) (by decide),
    fun last => framed 32 (.inr last) (by decide)⟩

theorem framed_escape {c : UInt8} (visible : c ≠ 32) : Framed (escape c) := by
  rcases escape_cases c with ⟨ordinary, printed⟩ | ⟨d, special, printed, _⟩
  · rw [printed]
    apply framed_singleton
    intro blank
    simp only [blanks, List.mem_cons] at blank
    rcases blank with rfl | rfl | rfl | rfl | none
    · exact visible rfl
    · exact ordinary (by decide)
    · exact ordinary (by decide)
    · exact ordinary (by decide)
    · cases none
  · rw [printed]
    have shown : ∀ d ∈ ([92, 114, 110, 116, 61] : List UInt8),
        d ∉ blanks := by decide +kernel
    exact (framed_singleton (c := 92) (by decide)).append
      (framed_singleton (shown d special))

theorem escapes_append (s t : List UInt8) :
    escapes (s ++ t) = escapes s ++ escapes t :=
  List.flatMap_append

theorem escape_ne_nil (c : UInt8) : escape c ≠ [] := by
  rcases escape_cases c with ⟨_, printed⟩ | ⟨d, _, printed, _⟩
  · rw [printed]
    exact List.cons_ne_nil _ _
  · rw [printed]
    exact List.cons_ne_nil _ _

theorem escapes_eq_nil_iff {s : List UInt8} : escapes s = [] ↔ s = [] := by
  cases s with
  | nil => exact iff_of_true rfl rfl
  | cons c s => simp [escapes, escape_ne_nil]

theorem Unspaced.framed {s : List UInt8} (unspaced : Unspaced s) :
    Framed (escapes s) := by
  rintro c (head | last)
  · cases s with
    | nil => cases head
    | cons a s =>
        have visible : a ≠ 32 := fun space => unspaced.1 (by rw [space]; rfl)
        rw [escapes, List.flatMap_cons, List.head?_append,
          List.head?_eq_some_head (escape_ne_nil a), Option.some_or] at head
        refine framed_escape visible c (.inl ?_)
        rw [List.head?_eq_some_head (escape_ne_nil a), head]
  · rcases List.eq_nil_or_concat s with rfl | ⟨s, a, rfl⟩
    · cases last
    · have visible : a ≠ 32 := fun space => unspaced.2 (by rw [space]; simp)
      have own : escapes [a] = escape a := by simp [escapes]
      rw [List.concat_eq_append, escapes_append, own, List.getLast?_append,
        List.getLast?_eq_some_getLast (escape_ne_nil a),
        Option.some_or] at last
      refine framed_escape visible c (.inr ?_)
      rw [List.getLast?_eq_some_getLast (escape_ne_nil a), last]

/-- A printed parameter without its indentation. -/
def paramText (entry : List UInt8 × List UInt8) : List UInt8 :=
  escapes entry.1 ++ if entry.2 = [] then [] else 61 :: escapes entry.2

/-- What a printed parameter is read back as. -/
def written (entry : List UInt8 × List UInt8) :
    Option (List UInt8 × List UInt8) :=
  if entry.1 = [] ∧ entry.2 = [] then none
  else if entry.1.getLast? = some 92 ∧ entry.2 ≠ [] then
    some (entry.1 ++ 61 :: entry.2, [])
  else some entry

variable {entry : List UInt8 × List UInt8}

theorem framed_paramText (key : Unspaced entry.1) (value : Unspaced entry.2) :
    Framed (paramText entry) := by
  apply key.framed.append
  split
  · rintro c (head | last)
    · cases head
    · cases last
  · exact (framed_singleton (c := 61) (by decide)).append value.framed

theorem paramText_eq_nil_iff :
    paramText entry = [] ↔ entry.1 = [] ∧ entry.2 = [] := by
  rw [paramText, List.append_eq_nil_iff, escapes_eq_nil_iff]
  refine and_congr_right fun _ => ?_
  split
  · next empty => exact iff_of_true rfl empty
  · next value => exact iff_of_false (List.cons_ne_nil _ _) value

theorem unescape_trim_escapes {s : List UInt8} (unspaced : Unspaced s) :
    unescape (trim (escapes s)) = some s := by
  have whole := unescape_escapes s []
  rw [List.append_nil, unescape, Option.map_some, List.append_nil] at whole
  rw [trim_eq_iff.mpr unspaced.framed, whole]

theorem separate_none (backslash : Bool) (s : List UInt8) :
    separate backslash (escapes s) = none := by
  have whole := separate_escapes backslash s []
  rw [List.append_nil] at whole
  exact whole

theorem setting_paramText (key : Unspaced entry.1) (value : Unspaced entry.2)
    (some : ¬ (entry.1 = [] ∧ entry.2 = [])) :
    setting (paramText entry) = written entry := by
  obtain ⟨name, text⟩ := entry
  rw [written, if_neg some, setting, paramText]
  dsimp only at *
  by_cases empty : text = []
  · subst empty
    rw [if_pos rfl, List.append_nil, separate_none, if_neg (by simp)]
    dsimp only
    rw [unescape_trim_escapes key]
    rfl
  · have framed := @framed_paramText (name, text) key value
    rw [paramText, if_neg empty] at framed
    rw [if_neg empty]
    by_cases slash : name.getLast? = Option.some 92
    · have joined : separate false (escapes name ++ 61 :: escapes text) =
          none := by
        rw [separate_escapes, slash]
        simp [separate, separate_none]
      have whole : unescape (escapes name ++ 61 :: escapes text) =
          Option.some (name ++ 61 :: text) := by
        have rest := unescape_escapes text []
        rw [List.append_nil, unescape, Option.map_some,
          List.append_nil] at rest
        rw [unescape_escapes, unescape_cons (by decide), rest]
        rfl
      rw [joined, if_pos ⟨slash, empty⟩]
      dsimp only
      rw [trim_eq_iff.mpr framed, whole]
      rfl
    · have flag : name.getLast?.elim false (fun c => decide (c = 92)) =
          false := by
        cases last : name.getLast? with
        | none => rfl
        | some c =>
            rw [last] at slash
            exact decide_eq_false fun same => slash (congrArg _ same)
      have parted : separate false (escapes name ++ 61 :: escapes text) =
          Option.some (escapes name, escapes text) := by
        rw [separate_escapes, flag, separate, if_pos ⟨rfl, rfl⟩,
          Option.map_some, List.append_nil]
      rw [parted, if_neg fun both => slash both.1]
      dsimp only
      rw [unescape_trim_escapes key, unescape_trim_escapes value]
      rfl

end TarsCpp.Config
