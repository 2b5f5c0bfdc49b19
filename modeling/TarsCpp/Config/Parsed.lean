import TarsCpp.Config.Lines

/-!
# Trees that the parser builds

No key occurs twice, and what has been trimmed and unescaped has no spaces at
its ends.
-/

namespace TarsCpp.Config

open TcConfigDomain

/-- A key and a value that a line can set. -/
structure Settled (entry : List UInt8 × List UInt8) : Prop where
  key : Unspaced entry.1
  value : Unspaced entry.2
  comment : entry.1.head? ≠ some 35

theorem escaped_special {d e : UInt8} (reads : escaped d = some e) :
    e ∈ [92, 13, 10, 9, 61] := by
  rw [escaped] at reads
  split_ifs at reads
  all_goals
    cases reads
    decide

theorem unescape_eq_nil {s : List UInt8} (empty : unescape s = some []) :
    s = [] := by
  match s with
  | [] => rfl
  | [c] =>
      rw [unescape] at empty
      split at empty <;> cases empty
  | c :: d :: rest =>
      rw [unescape] at empty
      split at empty
      · obtain ⟨e, _, later⟩ := Option.bind_eq_some_iff.mp empty
        obtain ⟨text, _, same⟩ := Option.bind_eq_some_iff.mp later
        cases same
      · obtain ⟨text, _, same⟩ := Option.bind_eq_some_iff.mp empty
        cases same

theorem head_unescape {s text : List UInt8} {c : UInt8}
    (reads : unescape s = some text) (head : text.head? = some c)
    (ordinary : c ∉ [92, 13, 10, 9, 61]) : s.head? = some c := by
  match s with
  | [] =>
      cases reads
      cases head
  | [d] =>
      rw [unescape] at reads
      split at reads
      · cases reads
      · cases reads
        exact head
  | d :: d' :: rest =>
      rw [unescape] at reads
      split at reads
      · obtain ⟨e, special, later⟩ := Option.bind_eq_some_iff.mp reads
        obtain ⟨text', _, same⟩ := Option.bind_eq_some_iff.mp later
        cases same
        cases head
        exact absurd (escaped_special special) ordinary
      · obtain ⟨text', _, same⟩ := Option.bind_eq_some_iff.mp reads
        cases same
        exact head

theorem last_unescape {s text : List UInt8} {c : UInt8}
    (reads : unescape s = some text) (last : text.getLast? = some c)
    (ordinary : c ∉ [92, 13, 10, 9, 61]) : s.getLast? = some c := by
  induction s using unescape.induct generalizing text with
  | case1 =>
      cases reads
      cases last
  | case2 => cases reads
  | case3 d other =>
      rw [unescape, if_neg other] at reads
      cases reads
      exact last
  | case4 d rest ih =>
      rw [unescape, if_pos rfl] at reads
      obtain ⟨e, special, later⟩ := Option.bind_eq_some_iff.mp reads
      obtain ⟨text', behind, same⟩ := Option.bind_eq_some_iff.mp later
      cases same
      rw [List.getLast?_cons, Option.some_inj] at last
      cases final : text'.getLast? with
      | none =>
          rw [final, Option.getD_none] at last
          rw [← last] at ordinary
          exact absurd (escaped_special special) ordinary
      | some c' =>
          rw [final, Option.getD_some] at last
          subst last
          rw [List.getLast?_cons, List.getLast?_cons, ih behind final]
          rfl
  | case5 c' d rest other ih =>
      rw [unescape, if_neg other] at reads
      obtain ⟨text', behind, same⟩ := Option.bind_eq_some_iff.mp reads
      cases same
      rw [List.getLast?_cons, Option.some_inj] at last
      cases final : text'.getLast? with
      | none =>
          rw [List.getLast?_eq_none_iff] at final
          rw [final] at behind
          cases unescape_eq_nil behind
      | some c'' =>
          rw [final, Option.getD_some] at last
          subst last
          rw [List.getLast?_cons, ih behind final]
          rfl

theorem unspaced_unescape {s text : List UInt8}
    (reads : unescape (trim s) = some text) : Unspaced text := by
  have framed := trim_eq_iff.mp (trim_trim s)
  constructor
  · intro head
    exact framed 32 (.inl (head_unescape reads head (by decide))) (by decide)
  · intro last
    exact framed 32 (.inr (last_unescape reads last (by decide))) (by decide)

theorem head_trim {s : List UInt8} {c : UInt8} (framed : ∀ d,
    s.head? = some d → d ∉ blanks) (head : (trim s).head? = some c) :
    s.head? = some c := by
  cases s with
  | nil => cases head
  | cons d rest =>
      have visible : d ∉ blanks := framed d rfl
      have whole : (d :: rest).dropWhile (· ∈ blanks) = d :: rest :=
        List.dropWhile_cons_of_neg (by simpa using visible)
      rw [trim, whole] at head
      obtain ⟨rest', shape⟩ := List.head?_eq_some_iff.mp head
      have inside := List.rdropWhile_prefix (· ∈ blanks) (d :: rest)
      rw [shape] at inside
      rw [(List.cons_prefix_cons.mp inside).1]
      rfl

/-- A trimmed line that is no comment. -/
theorem settled_setting {line : List UInt8} {entry : List UInt8 × List UInt8}
    (trimmed : trim line = line) (comment : line.head? ≠ some 35)
    (sets : setting line = some entry) : Settled entry := by
  have framed := trim_eq_iff.mp trimmed
  rw [setting] at sets
  cases parts : separate false line with
  | none =>
      rw [parts] at sets
      obtain ⟨key, reads, same⟩ := Option.bind_eq_some_iff.mp sets
      cases same
      refine ⟨unspaced_unescape reads, ⟨by simp, by simp⟩, fun hash => ?_⟩
      have head := head_unescape reads hash (by decide)
      rw [trimmed] at head
      exact comment head
  | some found =>
      obtain ⟨name, value⟩ := found
      rw [parts] at sets
      obtain ⟨key, reads, later⟩ := Option.bind_eq_some_iff.mp sets
      obtain ⟨text, reads', same⟩ := Option.bind_eq_some_iff.mp later
      cases same
      refine ⟨unspaced_unescape reads, unspaced_unescape reads', ?_⟩
      intro hash
      have split := separate_split parts
      have front : ∀ d, name.head? = some d → line.head? = some d := by
        intro d first
        rw [split, List.head?_append, first]
        rfl
      have head := head_unescape reads hash (by decide)
      have first := head_trim (fun d here => framed d (.inl (front d here)))
        head
      exact comment (front 35 first)

/-- The keys are distinct, and all parameters have been set by lines. -/
inductive Parsed : TcConfigDomain → Prop
  | mk {name : List UInt8} {param : List (List UInt8 × List UInt8)}
      {subdomain : List (List UInt8 × TcConfigDomain)}
      {line : List (List UInt8)}
      (params : (param.map Prod.fst).Nodup)
      (settled : ∀ entry ∈ param, Settled entry)
      (domains : (subdomain.map Prod.fst).Nodup)
      (below : ∀ entry ∈ subdomain, Parsed entry.2) :
      Parsed (.mk name param subdomain line)

namespace Parsed

variable {root old new : TcConfigDomain} {path : Path}

theorem child {key : List UInt8} {domain : TcConfigDomain}
    (parsed : Parsed root) (found : root.child key = some domain) :
    Parsed domain := by
  have member := mem_of_child found
  cases parsed with
  | mk _ _ _ below => exact below _ member

theorem find? (parsed : Parsed root) (found : root.find? path = some old) :
    Parsed old := by
  induction path generalizing root with
  | nil =>
      cases found
      exact parsed
  | cons name path ih =>
      obtain ⟨child, here, later⟩ := Option.bind_eq_some_iff.mp found
      exact ih (parsed.child here) later

theorem assign (parsed : Parsed root) (below : Parsed new) :
    Parsed (root.assign path new) := by
  induction path generalizing root with
  | nil =>
      rw [TcConfigDomain.assign]
      exact below
  | cons name path ih =>
      cases parsed with
      | @mk own param subdomain line params settled domains inside =>
          rw [TcConfigDomain.assign]
          refine .mk params settled ?_ ?_
          · have keys : (subdomain.map fun entry =>
                if entry.1 = name then (entry.1, entry.2.assign path new)
                else entry).map Prod.fst = subdomain.map Prod.fst := by
              rw [List.map_map]
              refine List.map_congr_left fun entry _ => ?_
              rw [Function.comp_apply]
              split <;> rfl
            rw [keys]
            exact domains
          · intro entry member
            obtain ⟨other, present, rfl⟩ := List.mem_map.mp member
            split
            · exact ih (inside other present)
            · exact inside other present

theorem ofLine (sLine : List UInt8) : Parsed (.ofLine sLine) :=
  .mk List.nodup_nil (by simp) List.nodup_nil (by simp)

theorem addSubDomain (parsed : Parsed old) (name : List UInt8) :
    Parsed (old.addSubDomain name) := by
  cases parsed with
  | @mk own param subdomain line params settled domains below =>
      rw [TcConfigDomain.addSubDomain]
      split
      · next absent =>
          have missing : name ∉ subdomain.map Prod.fst := by
            rw [Option.isNone_iff_eq_none, TcConfigDomain.child,
              Option.map_eq_none_iff, List.find?_eq_none] at absent
            intro member
            obtain ⟨entry, inside, same⟩ := List.mem_map.mp member
            exact absent entry inside (by simpa using same)
          refine .mk params settled ?_ ?_
          · rw [List.map_append]
            exact domains.append (List.nodup_singleton _)
              (List.disjoint_singleton.mpr missing)
          · intro entry member
            rcases List.mem_append.mp member with here | last
            · exact below entry here
            · rw [List.mem_singleton.mp last]
              exact ofLine name
      · exact .mk params settled domains below

theorem of_param {entry : List UInt8 × List UInt8} (parsed : Parsed old)
    (settled : Settled entry) (subdomain : new.subdomain = old.subdomain)
    (param : new.param = old.param.filter (·.1 ≠ entry.1) ++ [entry]) :
    Parsed new := by
  obtain ⟨own, params', domains', line'⟩ := new
  cases parsed with
  | @mk _ params _ _ distinct settled' domains below =>
      cases subdomain
      change params' = params.filter (·.1 ≠ entry.1) ++ [entry] at param
      subst param
      refine .mk ?_ ?_ domains below
      · rw [List.map_append]
        refine List.Nodup.append ?_ (List.nodup_singleton _)
          (List.disjoint_singleton.mpr ?_)
        · exact distinct.sublist (List.filter_sublist.map _)
        · intro member
          obtain ⟨other, inside, same⟩ := List.mem_map.mp member
          exact of_decide_eq_true (List.mem_filter.mp inside).2 same
      · intro other member
        rcases List.mem_append.mp member with inside | last
        · exact settled' other (List.mem_filter.mp inside).1
        · rw [List.mem_singleton.mp last]
          exact settled

end Parsed

theorem top_eq_ok {parser : Parser} {path : Path} {top : TcConfigDomain}
    (found : parser.top = .ok (path, top)) :
    parser.root.find? path = some top := by
  rw [Parser.top] at found
  split at found
  · cases found
  · split at found
    · next here =>
        cases found
        exact here
    · cases found

theorem parsed_parseTag {parser after : Parser} {s : List UInt8} {posl : Nat}
    (parsed : Parsed parser.root)
    (step : parser.parseTag s posl = .ok after) : Parsed after.root := by
  rw [Parser.parseTag] at step
  obtain ⟨second, _, step⟩ := bind_eq_ok_iff.mp step
  split at step
  · obtain ⟨sName, _, step⟩ := bind_eq_ok_iff.mp step
    split at step
    · cases step
    · obtain ⟨⟨path, top⟩, _, step⟩ := bind_eq_ok_iff.mp step
      dsimp only at step
      split at step
      · cases step
      · cases step
        exact parsed
  · obtain ⟨name, _, step⟩ := bind_eq_ok_iff.mp step
    obtain ⟨⟨path, top⟩, found, step⟩ := bind_eq_ok_iff.mp step
    cases step
    exact parsed.assign ((parsed.find? (top_eq_ok found)).addSubDomain name)

theorem parsed_parseLine {parser after : Parser} {line : List UInt8}
    (parsed : Parsed parser.root)
    (step : parser.parseLine line = .ok after) : Parsed after.root := by
  rw [Parser.parseLine] at step
  dsimp only at step
  have trimmed := trim_trim line
  generalize trim line = text at step trimmed
  split at step
  · cases step
    exact parsed
  · next some =>
      obtain ⟨first, read, step⟩ := bind_eq_ok_iff.mp step
      split at step
      · cases step
        exact parsed
      · next other =>
          have comment : text.head? ≠ Option.some 35 := by
            intro hash
            obtain ⟨rest, rfl⟩ := List.head?_eq_some_iff.mp hash
            cases read
            exact other rfl
          split at step
          · split at step
            · cases step
            · exact parsed_parseTag parsed step
          · obtain ⟨⟨path, top⟩, found, step⟩ := bind_eq_ok_iff.mp step
            obtain ⟨domain, sets, step⟩ := bind_eq_ok_iff.mp step
            cases step
            have below := parsed.find? (top_eq_ok found)
            rcases top.setParamLine_cases (mt List.length_eq_zero_iff.mpr some)
              with ⟨key, value, new, line, result, _, subdomain, param⟩ |
                ⟨_, buffer, result⟩
            · rw [sets] at result
              cases result
              have settled := settled_setting trimmed comment line
              exact parsed.assign (below.of_param settled subdomain param)
            · rw [sets] at result
              cases result

theorem parsed_parseLines {parser after : Parser} {lines : List (List UInt8)}
    (parsed : Parsed parser.root)
    (run : lines.foldlM Parser.parseLine parser = .ok after) :
    Parsed after.root := by
  induction lines generalizing parser with
  | nil =>
      cases run
      exact parsed
  | cons line lines ih =>
      rw [List.foldlM_cons] at run
      obtain ⟨next, step, run⟩ := bind_eq_ok_iff.mp run
      exact ih (parsed_parseLine parsed step) run

/-- Every tree that the parser returns. -/
theorem parsed_parseString {buffer : List UInt8} {root : TcConfigDomain}
    (read : parseString buffer = .ok root) :
    Parsed root ∧ root.WellNamed := by
  rw [parseString] at read
  obtain ⟨parser, run, read⟩ := bind_eq_ok_iff.mp read
  split at read
  · cases read
  · cases read
    constructor
    · exact parsed_parseLines (.ofLine []) run
    · have follows := tracks_root.parseLines (getlines [] buffer)
      rw [run] at follows
      generalize scan [[]] _ = names at follows
      cases follows with
      | ok tracks => exact tracks.wellNamed

end TarsCpp.Config
