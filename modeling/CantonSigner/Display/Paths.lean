import CantonSigner.Display.Holdings
import CantonSigner.Model.DisplayParser
import CantonSigner.Lib.Separated

/-!
# Which position a path names

Both walkers join the segments on the way to a value with dots. The display walker writes a
backslash before a dot inside a segment, but a backslash as it is; the holding walker writes
the segment as it is. So a path does not name one position:

- `display_path_eq_iff`, `holding_path_eq_iff`: two positions have the same path exactly if
  they break into the same pieces;
- `paths_identify_iff`: paths name positions as long as dots (holding walker), or dots and
  backslashes together (display walker), do not occur in segments.
-/

namespace CantonSigner

open ByteCodec

/-- A segment of a path: a label or a key. -/
def Segment (seg : Bytes) : Prop := seg ≠ [] ∧ NulFree seg

instance (seg : Bytes) : Decidable (Segment seg) := inferInstanceAs (Decidable (_ ∧ _))

/-! ## Joined paths -/

/-- Labels below a path that is not empty. -/
theorem foldl_joinPath_of_ne_nil : ∀ (labels : List Bytes) {path : Bytes} (_ : path ≠ []),
    labels.foldl HoldingParser.joinPath path = [46].intercalate (path :: labels)
  | [], path, _ => by rw [List.foldl_nil, List.intercalate_singleton]
  | label :: labels, path, h => by
    have hne : HoldingParser.joinPath path label ≠ [] := by
      simp [HoldingParser.joinPath, h]
    have hpos : 0 < path.length := List.length_pos_of_ne_nil h
    rw [List.foldl_cons, foldl_joinPath_of_ne_nil labels hne]
    cases labels with
    | nil => simp [HoldingParser.joinPath, hpos]
    | cons l labels => simp [HoldingParser.joinPath, hpos, List.intercalate_cons_cons]

/-- Labels from the root of the argument. -/
theorem foldl_joinPath {labels : List Bytes} (h : ∀ l ∈ labels, l ≠ []) :
    labels.foldl HoldingParser.joinPath [] = [46].intercalate labels := by
  cases labels with
  | nil => rfl
  | cons label labels =>
    exact foldl_joinPath_of_ne_nil labels (h label List.mem_cons_self)

/-- Paths of labels that are not empty agree exactly if the labels break into the same
pieces at their dots. -/
theorem joinPath_eq_iff {ls ms : List Bytes} (hls : ∀ l ∈ ls, l ≠ []) (hms : ∀ m ∈ ms, m ≠ []) :
    ls.foldl HoldingParser.joinPath [] = ms.foldl HoldingParser.joinPath [] ↔
      ls.flatMap (List.splitOn 46) = ms.flatMap (List.splitOn 46) := by
  have hne {ns : List Bytes} (hns : ∀ n ∈ ns, n ≠ []) (h : ns ≠ []) :
      [46].intercalate ns ≠ [] := by
    obtain ⟨n, ns, rfl⟩ := List.exists_cons_of_ne_nil h
    have hn := hns n List.mem_cons_self
    cases ns with
    | nil => rwa [List.intercalate_singleton]
    | cons => simp [List.intercalate_cons_cons, hn]
  rw [foldl_joinPath hls, foldl_joinPath hms]
  -- The root is at the empty path, and nothing else is.
  by_cases hl : ls = []
  · subst hl
    by_cases hm : ms = []
    · subst hm
      exact iff_of_true rfl rfl
    · exact iff_of_false (Ne.symm (hne hms hm)) (Ne.symm (List.flatMap_splitOn_ne_nil hm))
  · by_cases hm : ms = []
    · subst hm
      exact iff_of_false (hne hls hl) (List.flatMap_splitOn_ne_nil hl)
    · exact List.intercalate_eq_iff hl hm

/-! ## The two walkers -/

/-- A label that fits is written as it is. -/
theorem pathPush_path {s : HoldingParser.Ctx} {seg : Bytes}
    (h : (HoldingParser.pathPush s seg).cfg.isSome = true) :
    s.cfg.isSome = true ∧
      (HoldingParser.pathPush s seg).path = HoldingParser.joinPath s.path seg := by
  unfold HoldingParser.pathPush at h ⊢
  by_cases hlong : HoldingParser.maxLabelPathLen ≤
      s.path.length + (if 0 < s.path.length then 1 else 0) + seg.length
  · rw [if_pos hlong] at h
    cases h
  · rw [if_neg hlong] at h ⊢
    exact ⟨h, rfl⟩

/-- The holding walker joins the labels of a path that fits. -/
theorem foldl_pathPush : ∀ (segs : List Bytes) {s : HoldingParser.Ctx},
    (segs.foldl HoldingParser.pathPush s).cfg.isSome = true →
    s.cfg.isSome = true ∧
      (segs.foldl HoldingParser.pathPush s).path = segs.foldl HoldingParser.joinPath s.path
  | [], _, h => ⟨h, rfl⟩
  | seg :: segs, s, h => by
    obtain ⟨hcfg, hpath⟩ := foldl_pathPush segs h
    obtain ⟨hcfg', hseg⟩ := pathPush_path hcfg
    exact ⟨hcfg', by rw [List.foldl_cons, hpath, List.foldl_cons, hseg]⟩

theorem pushPath_of_lt {s : DisplayParser.Ctx} {seg : Bytes} (hs : s.fields.isSome = true)
    (h : s.path.length + 1 + (DisplayParser.escapeSegment seg).length < maxFieldPathLen) :
    DisplayParser.pushPath s seg =
      { s with path := HoldingParser.joinPath s.path (DisplayParser.escapeSegment seg) } := by
  unfold DisplayParser.pushPath
  rw [if_neg (by simpa [Option.isSome_iff_ne_none] using hs), if_neg (Nat.not_le.mpr h)]
  rfl

/-- A segment that fits is written with its dots escaped. -/
theorem pushPath_path {s : DisplayParser.Ctx} {seg : Bytes} (hs : s.fields.isSome = true)
    (h : (DisplayParser.pushPath s seg).unreadable = false) :
    s.unreadable = false ∧ (DisplayParser.pushPath s seg).fields.isSome = true ∧
      (DisplayParser.pushPath s seg).path =
        HoldingParser.joinPath s.path (DisplayParser.escapeSegment seg) := by
  by_cases hlong : s.path.length + 1 + (DisplayParser.escapeSegment seg).length < maxFieldPathLen
  · rw [pushPath_of_lt hs hlong] at h ⊢
    exact ⟨h, hs, rfl⟩
  · unfold DisplayParser.pushPath at h
    rw [if_neg (by simpa [Option.isSome_iff_ne_none] using hs),
      if_pos (Nat.not_lt.mp hlong)] at h
    cases h

/-- The display walker joins the escaped segments of a path that fits. -/
theorem foldl_pushPath : ∀ (segs : List Bytes) {s : DisplayParser.Ctx}, s.fields.isSome = true →
    (segs.foldl DisplayParser.pushPath s).unreadable = false →
    s.unreadable = false ∧ (segs.foldl DisplayParser.pushPath s).path =
      (segs.map DisplayParser.escapeSegment).foldl HoldingParser.joinPath s.path
  | [], _, _, h => ⟨h, rfl⟩
  | seg :: segs, s, hs, h => by
    have hkept : (DisplayParser.pushPath s seg).fields.isSome = true := by
      unfold DisplayParser.pushPath
      split
      · exact hs
      · split <;> exact hs
    obtain ⟨hread, hpath⟩ := foldl_pushPath segs hkept h
    obtain ⟨hread', -, hseg⟩ := pushPath_path hs hread
    exact ⟨hread', by rw [List.foldl_cons, hpath, List.map_cons, List.foldl_cons, hseg]⟩

/-! ## Segments broken at their dots -/

/-- A segment broken at its dots: the display walker leaves a backslash at the end of each
piece but the last. -/
def breakDots : Bytes → List Bytes
  | [] => [[]]
  | c :: cs => if c = 46 then [92] :: breakDots cs else (breakDots cs).modifyHead (List.cons c)

theorem splitOn_escapeSegment (seg : Bytes) :
    (DisplayParser.escapeSegment seg).splitOn 46 = breakDots seg := by
  induction seg with
  | nil => rfl
  | cons c cs ih =>
    unfold DisplayParser.escapeSegment breakDots
    by_cases hc : c = 46
    · rw [if_pos hc, if_pos hc, hc, ← ih]
      simp [List.splitOn_cons_eq_if_modifyHead]
    · rw [if_neg hc, if_neg hc, List.splitOn_cons_eq_if_modifyHead, ih, if_neg (by simpa using hc)]

theorem breakDots_ne_nil (seg : Bytes) : breakDots seg ≠ [] := by
  rw [← splitOn_escapeSegment]
  exact List.splitOn_ne_nil _ _

theorem breakDots_of_not_mem {seg : Bytes} (h : 46 ∉ seg) : breakDots seg = [seg] := by
  induction seg with
  | nil => rfl
  | cons c cs ih =>
    rw [List.mem_cons, not_or] at h
    rw [breakDots, if_neg (Ne.symm h.1), ih h.2]
    rfl

theorem flatMap_breakDots_of_not_mem {segs : List Bytes} (h : ∀ seg ∈ segs, 46 ∉ seg) :
    segs.flatMap breakDots = segs := by
  induction segs with
  | nil => rfl
  | cons seg segs ih =>
    rw [List.flatMap_cons, breakDots_of_not_mem (h seg List.mem_cons_self),
      ih fun seg hseg => h seg (List.mem_cons_of_mem _ hseg), List.singleton_append]

/-- Without backslashes, the pieces show where a segment ends: at the first piece that has
no backslash. -/
theorem breakDots_append_inj : ∀ {a b : Bytes} {X Y : List Bytes}, 92 ∉ a → 92 ∉ b →
    breakDots a ++ X = breakDots b ++ Y → a = b ∧ X = Y
  | [], [], X, Y, _, _, h => ⟨rfl, by simpa [breakDots] using h⟩
  | [], c :: cs, X, Y, _, hb, h => by
    obtain ⟨piece, pieces, hcs⟩ := List.exists_cons_of_ne_nil (breakDots_ne_nil cs)
    rw [breakDots, breakDots] at h
    by_cases hc : c = 46
    · simp [hc] at h
    · simp [hc, hcs] at h
  | c :: cs, [], X, Y, ha, _, h => by
    obtain ⟨piece, pieces, hcs⟩ := List.exists_cons_of_ne_nil (breakDots_ne_nil cs)
    rw [breakDots, breakDots] at h
    by_cases hc : c = 46
    · simp [hc] at h
    · simp [hc, hcs] at h
  | c :: cs, c' :: cs', X, Y, ha, hb, h => by
    rw [List.mem_cons, not_or] at ha hb
    have ih := breakDots_append_inj (X := X) (Y := Y) ha.2 hb.2
    obtain ⟨p, ps, hp⟩ := List.exists_cons_of_ne_nil (breakDots_ne_nil cs)
    obtain ⟨p', ps', hp'⟩ := List.exists_cons_of_ne_nil (breakDots_ne_nil cs')
    rw [breakDots, breakDots] at h
    rw [hp, hp'] at h ih
    by_cases hc : c = 46
    · by_cases hc' : c' = 46
      · -- Both break here.
        simp only [if_pos hc, if_pos hc', List.cons_append, List.cons.injEq, true_and] at h
        obtain ⟨rfl, rfl⟩ := ih (by rw [List.cons_append, List.cons_append, h.1, h.2])
        exact ⟨by rw [hc, hc'], rfl⟩
      · -- One breaks and the other does not: it would start with a backslash.
        simp only [if_pos hc, if_neg hc', List.modifyHead_cons, List.cons_append,
          List.cons.injEq] at h
        exact absurd h.1.1 hb.1
    · by_cases hc' : c' = 46
      · simp only [if_neg hc, if_pos hc', List.modifyHead_cons, List.cons_append,
          List.cons.injEq] at h
        exact absurd h.1.1.symm ha.1
      · -- Neither breaks: the first characters agree.
        simp only [if_neg hc, if_neg hc', List.modifyHead_cons, List.cons_append,
          List.cons.injEq] at h
        obtain ⟨⟨rfl, rfl⟩, hrest⟩ := h
        obtain ⟨rfl, rfl⟩ := ih (by rw [List.cons_append, List.cons_append, hrest])
        exact ⟨rfl, rfl⟩

theorem flatMap_breakDots_inj : ∀ {ss ts : List Bytes}, (∀ seg ∈ ss, 92 ∉ seg) →
    (∀ seg ∈ ts, 92 ∉ seg) → ss.flatMap breakDots = ts.flatMap breakDots → ss = ts
  | [], [], _, _, _ => rfl
  | [], t :: ts, _, _, h => by simp [breakDots_ne_nil] at h
  | s :: ss, [], _, _, h => by simp [breakDots_ne_nil] at h
  | s :: ss, t :: ts, hs, ht, h => by
    rw [List.flatMap_cons, List.flatMap_cons] at h
    obtain ⟨rfl, hrest⟩ := breakDots_append_inj (hs s List.mem_cons_self)
      (ht t List.mem_cons_self) h
    rw [flatMap_breakDots_inj (fun seg hseg => hs seg (List.mem_cons_of_mem _ hseg))
      (fun seg hseg => ht seg (List.mem_cons_of_mem _ hseg)) hrest]

/-! ## Paths of positions -/

/-- The display walker's state below a position, from the root of an argument. -/
def displayAt (s : DisplayParser.Ctx) (segs : List Bytes) : DisplayParser.Ctx :=
  segs.foldl DisplayParser.pushPath s

/-- The holding walker's state below a position. -/
def holdingAt (cfg : HoldingParser.HoldingPathConfig) (segs : List Bytes) : HoldingParser.Ctx :=
  segs.foldl HoldingParser.pathPush (.start cfg)

/-- The display walker is at the root of an argument, with a configuration. -/
structure AtRoot (s : DisplayParser.Ctx) : Prop where
  fields : s.fields.isSome = true
  path : s.path = []
  readable : s.unreadable = false

section Positions

variable {s : DisplayParser.Ctx} {cfg : HoldingParser.HoldingPathConfig} {ss ts : List Bytes}
  (hss : ∀ seg ∈ ss, Segment seg) (hts : ∀ seg ∈ ts, Segment seg)
include hss hts

theorem holding_path_eq_iff (hfits : (holdingAt cfg ss).cfg.isSome = true)
    (hfits' : (holdingAt cfg ts).cfg.isSome = true) :
    (holdingAt cfg ss).path = (holdingAt cfg ts).path ↔
      ss.flatMap (List.splitOn 46) = ts.flatMap (List.splitOn 46) := by
  unfold holdingAt at hfits hfits' ⊢
  rw [(foldl_pathPush ss hfits).2, (foldl_pathPush ts hfits').2]
  exact joinPath_eq_iff (fun seg hseg => (hss seg hseg).1) fun seg hseg => (hts seg hseg).1

theorem display_path_eq_iff (hs : AtRoot s) (hfits : (displayAt s ss).unreadable = false)
    (hfits' : (displayAt s ts).unreadable = false) :
    (displayAt s ss).path = (displayAt s ts).path ↔
      ss.flatMap breakDots = ts.flatMap breakDots := by
  have hescaped {segs : List Bytes} (h : ∀ seg ∈ segs, Segment seg) :
      ∀ l ∈ segs.map DisplayParser.escapeSegment, l ≠ [] := by
    intro l hl
    obtain ⟨seg, hseg, rfl⟩ := List.mem_map.mp hl
    obtain ⟨c, cs, rfl⟩ := List.exists_cons_of_ne_nil (h seg hseg).1
    unfold DisplayParser.escapeSegment
    split <;> exact List.cons_ne_nil _ _
  unfold displayAt at hfits hfits' ⊢
  rw [(foldl_pushPath ss hs.fields hfits).2, (foldl_pushPath ts hs.fields hfits').2, hs.path,
    joinPath_eq_iff (hescaped hss) (hescaped hts)]
  simp only [List.flatMap_map, splitOn_escapeSegment]

end Positions

/-- Sequences of segments over these characters. -/
def Over (C : Set UInt8) (segs : List Bytes) : Prop :=
  ∀ seg ∈ segs, Segment seg ∧ ∀ c ∈ seg, c ∈ C

/-- Segment lists over a set of characters are told apart by the display walker's paths exactly
if the set does not have both the dot and the backslash. -/
theorem display_paths_name_iff {s : DisplayParser.Ctx} (hs : AtRoot s) (C : Set UInt8) :
    (∀ ss ts, Over C ss → Over C ts → (displayAt s ss).unreadable = false →
      (displayAt s ts).unreadable = false → (displayAt s ss).path = (displayAt s ts).path →
        ss = ts) ↔ ¬ (46 ∈ C ∧ 92 ∈ C) := by
  constructor
  · -- A backslash at a border is read as the escape of a dot.
    rintro h ⟨hdot, hback⟩
    have hover : Over C [[92], [92]] := by
      intro seg hseg
      have hseg' : seg = [92] := by simpa using hseg
      subst hseg'
      exact ⟨⟨by decide, by simp [NulFree]⟩, by simpa using hback⟩
    have hover' : Over C [[46, 92]] := by
      intro seg hseg
      rw [List.mem_singleton.mp hseg]
      exact ⟨⟨by decide, by simp [NulFree]⟩, by simpa using ⟨hdot, hback⟩⟩
    have hfits : (displayAt s [[92], [92]]).unreadable = false := by
      show (DisplayParser.pushPath (DisplayParser.pushPath s [92]) [92]).unreadable = false
      have hfirst : DisplayParser.pushPath s [92] =
          { s with path := HoldingParser.joinPath s.path [92] } :=
        pushPath_of_lt hs.fields (by rw [hs.path]; decide)
      have hshort : (HoldingParser.joinPath s.path [92]).length + 1 + 1 < maxFieldPathLen := by
        rw [hs.path]
        decide
      rw [hfirst, pushPath_of_lt (by exact hs.fields) hshort]
      exact hs.readable
    have hfits' : (displayAt s [[46, 92]]).unreadable = false := by
      show (DisplayParser.pushPath s [46, 92]).unreadable = false
      rw [pushPath_of_lt hs.fields (by rw [hs.path]; decide)]
      exact hs.readable
    have heq := h _ _ hover hover' hfits hfits'
      ((display_path_eq_iff (fun seg hseg => (hover seg hseg).1)
        (fun seg hseg => (hover' seg hseg).1) hs hfits hfits').mpr rfl)
    cases heq
  · intro hC ss ts hss hts hfits hfits' hpath
    rw [display_path_eq_iff (fun seg hseg => (hss seg hseg).1)
      (fun seg hseg => (hts seg hseg).1) hs hfits hfits'] at hpath
    -- without dots every segment is its own piece
    by_cases hdot : (46 : UInt8) ∈ C
    · have hback : (92 : UInt8) ∉ C := fun hback => hC ⟨hdot, hback⟩
      exact flatMap_breakDots_inj (fun seg hseg h => hback ((hss seg hseg).2 _ h))
        (fun seg hseg h => hback ((hts seg hseg).2 _ h)) hpath
    · rwa [flatMap_breakDots_of_not_mem fun seg hseg h => hdot ((hss seg hseg).2 _ h),
        flatMap_breakDots_of_not_mem fun seg hseg h => hdot ((hts seg hseg).2 _ h)] at hpath

/-- The holding walker's paths tell them apart exactly if the set does not have the dot. -/
theorem holding_paths_name_iff (cfg : HoldingParser.HoldingPathConfig) (C : Set UInt8) :
    (∀ ss ts, Over C ss → Over C ts → (holdingAt cfg ss).cfg.isSome = true →
      (holdingAt cfg ts).cfg.isSome = true → (holdingAt cfg ss).path = (holdingAt cfg ts).path →
        ss = ts) ↔ 46 ∉ C := by
  constructor
  · -- A dot at a border is read as one inside a segment.
    intro h hdot
    have hover : Over C [[46], [46]] := by
      intro seg hseg
      have hseg' : seg = [46] := by simpa using hseg
      subst hseg'
      exact ⟨⟨by decide, by simp [NulFree]⟩, by simpa using hdot⟩
    have hover' : Over C [[46, 46, 46]] := by
      intro seg hseg
      rw [List.mem_singleton.mp hseg]
      exact ⟨⟨by decide, by simp [NulFree]⟩, by simpa using hdot⟩
    have heq := h _ _ hover hover' rfl rfl rfl
    cases heq
  · -- Without dots the pieces are the segments.
    intro hdot ss ts hss hts hfits hfits' hpath
    rwa [holding_path_eq_iff (fun seg hseg => (hss seg hseg).1)
        (fun seg hseg => (hts seg hseg).1) hfits hfits',
      List.flatMap_splitOn_of_not_mem fun seg hseg h => hdot ((hss seg hseg).2 _ h),
      List.flatMap_splitOn_of_not_mem fun seg hseg h => hdot ((hts seg hseg).2 _ h)] at hpath

/-- **What paths name.** The display walker's paths name positions as long as segments do not
contain both dots and backslashes, the holding walker's as long as they contain no dots.
Two positions share a path exactly if they break into the same pieces. -/
theorem paths_identify_iff {s : DisplayParser.Ctx} (hs : AtRoot s)
    (cfg : HoldingParser.HoldingPathConfig) :
    (∀ C : Set UInt8,
      (∀ ss ts, Over C ss → Over C ts → (displayAt s ss).unreadable = false →
        (displayAt s ts).unreadable = false → (displayAt s ss).path = (displayAt s ts).path →
          ss = ts) ↔ ¬ (46 ∈ C ∧ 92 ∈ C)) ∧
    (∀ C : Set UInt8,
      (∀ ss ts, Over C ss → Over C ts → (holdingAt cfg ss).cfg.isSome = true →
        (holdingAt cfg ts).cfg.isSome = true → (holdingAt cfg ss).path = (holdingAt cfg ts).path →
          ss = ts) ↔ 46 ∉ C) ∧
    (∀ ss ts, (∀ seg ∈ ss, Segment seg) → (∀ seg ∈ ts, Segment seg) →
      (displayAt s ss).unreadable = false → (displayAt s ts).unreadable = false →
      ((displayAt s ss).path = (displayAt s ts).path ↔
        ss.flatMap breakDots = ts.flatMap breakDots)) ∧
    (∀ ss ts, (∀ seg ∈ ss, Segment seg) → (∀ seg ∈ ts, Segment seg) →
      (holdingAt cfg ss).cfg.isSome = true → (holdingAt cfg ts).cfg.isSome = true →
      ((holdingAt cfg ss).path = (holdingAt cfg ts).path ↔
        ss.flatMap (List.splitOn 46) = ts.flatMap (List.splitOn 46))) := by
  refine ⟨display_paths_name_iff hs, holding_paths_name_iff cfg, ?_, ?_⟩
  · intro ss ts hss hts hfits hfits'
    exact display_path_eq_iff hss hts hs hfits hfits'
  · intro ss ts hss hts hfits hfits'
    exact holding_path_eq_iff hss hts hfits hfits'

/-- The display walker at the root of the argument of a token transfer. -/
def transferRoot : DisplayParser.Ctx :=
  (displayConfigs.head?.map
    (DisplayParser.setDisplayConfig (.start none ⟨none, false, false, none, none⟩))).getD
      (.start none ⟨none, false, false, none, none⟩)

/-- The paths of an Amulet. -/
def amuletPaths : HoldingParser.HoldingPathConfig :=
  ⟨str "Splice.Amulet", str "Amulet", str "owner", str "amount.initialAmount", str "dso", none⟩

/-- A dot inside a segment is told from a border by the display walker, but not by the
holding walker. -/
theorem paths_identify_dot :
    (displayAt transferRoot [str "a", str "b"]).path ≠ (displayAt transferRoot [str "a.b"]).path ∧
    (holdingAt amuletPaths [str "a", str "b"]).path = (holdingAt amuletPaths [str "a.b"]).path := by
  have hroot : AtRoot transferRoot := ⟨by decide, by decide, by decide⟩
  have hsegs : ∀ seg ∈ [str "a", str "b"], Segment seg := by decide
  have hseg : ∀ seg ∈ [str "a.b"], Segment seg := by decide
  obtain ⟨-, -, hdisplay, hholding⟩ := paths_identify_iff hroot amuletPaths
  constructor
  · rw [Ne, hdisplay _ _ hsegs hseg (by decide) (by decide)]
    decide
  · rw [hholding _ _ hsegs hseg (by decide) (by decide)]
    decide

/-- Two positions at the path of the memo of a token transfer, and two at the path of the
amount of an Amulet. -/
theorem configured_paths_shared :
    (∃ ss ts : List Bytes, ss ≠ ts ∧ (∀ seg ∈ ss ++ ts, Segment seg) ∧
      (displayAt transferRoot ss).unreadable = false ∧
      (displayAt transferRoot ts).unreadable = false ∧
      (displayAt transferRoot ss).path = (displayAt transferRoot ts).path ∧
      ∃ f ∈ tokenTransferFields, f.path = (displayAt transferRoot ss).path) ∧
    (∃ ss ts : List Bytes, ss ≠ ts ∧ (∀ seg ∈ ss ++ ts, Segment seg) ∧
      (holdingAt amuletPaths ss).cfg.isSome = true ∧
      (holdingAt amuletPaths ts).cfg.isSome = true ∧
      (holdingAt amuletPaths ss).path = (holdingAt amuletPaths ts).path ∧
      amuletPaths ∈ HoldingParser.holdingTemplates ∧
      amuletPaths.amountPath = (holdingAt amuletPaths ss).path) := by
  refine ⟨⟨[str "transfer", str "meta", str "values", str "splice.lfdecentralizedtrust.org/reason"],
    [str "transfer", str "meta", str "values", str "splice\\", str "lfdecentralizedtrust\\",
      str "org/reason"], ?_⟩,
    ⟨[str "amount", str "initialAmount"], [str "amount.initialAmount"], ?_⟩⟩ <;> decide

end CantonSigner
