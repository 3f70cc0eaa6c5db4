import SecFw.Client.Generated

/-!
This module contains what the generated tables are to the parser: every end of a command that words lead to is
the end of a line of the grammar, and its glue function hands on the values for the tokens of this line.
-/

namespace SecFw.Client

open TextCursor LabelTree

section Structs

variable {t u : LabelTree GenNode} {ts path pre : List (LabelTree GenNode)} {up nodes : List CparserNode}
  {node : CparserNode}

theorem cStructs_eq (ts : List (LabelTree GenNode)) : cStructs ts = ts.map cStruct := by
  induction ts with
  | nil => rfl
  | cons t ts ih =>
    rw [cStructs, ih]
    rfl

@[simp]
theorem children_cStruct : (cStruct t).children = t.children.map cStruct := by
  cases t with
  | node data children => exact cStructs_eq children

@[simp]
theorem type_cStruct : (cStruct t).type = t.data.type := by
  cases t with
  | node data children => rfl

@[simp]
theorem flags_cStruct : (cStruct t).flags = t.data.flags := by
  cases t with
  | node data children => rfl

@[simp]
theorem param_cStruct : (cStruct t).param = t.data.cParam := by
  cases t with
  | node data children => rfl

theorem exists_descends_of_isChain (h : List.IsChain (fun a b => b ∈ a.children) (cStruct t :: nodes))
    : ∃ path, Descends t path ∧ path.map cStruct = nodes := by
  induction nodes generalizing t with
  | nil => exact ⟨[], descends_nil t, rfl⟩
  | cons node nodes ih =>
    rcases List.isChain_cons_cons.mp h with ⟨hnode, hrest⟩
    rw [children_cStruct] at hnode
    rcases List.mem_map.mp hnode with ⟨u, hu, rfl⟩
    rcases ih hrest with ⟨path, hpath, rfl⟩
    exact ⟨u :: path, descends_cons.mpr ⟨hu, hpath⟩, rfl⟩

theorem exists_descends_of_within (h : Within (cStruct t) node)
    : ∃ path, Descends t path ∧ cStruct (path.getLastD t) = node := by
  induction h with
  | refl => exact ⟨[], descends_nil t, rfl⟩
  | tail _ hchild ih =>
    rcases ih with ⟨path, hpath, rfl⟩
    rw [children_cStruct] at hchild
    rcases List.mem_map.mp hchild with ⟨u, hu, rfl⟩
    refine ⟨path ++ [u], descends_append.mpr ⟨hpath, descends_cons.mpr ⟨hu, descends_nil u⟩⟩, ?_⟩
    rw [List.getLastD_concat]

def behindRoot (up : List CparserNode) (path : List (LabelTree GenNode)) : List CparserNode :=
  path.foldl (fun up t => if t.data.type = .ROOT then [] else up ++ [cStruct t]) up

theorem behindRoot_append (up : List CparserNode) (pre path : List (LabelTree GenNode))
    : behindRoot up (pre ++ path) = behindRoot (behindRoot up pre) path := List.foldl_append

theorem behindRoot_concat_root (pre : List (LabelTree GenNode)) (h : t.data.type = .ROOT)
    : behindRoot up (pre ++ [t]) = [] := by
  rw [behindRoot_append]
  exact if_pos h

theorem behindRoot_of_ne (h : ∀ t ∈ path, t.data.type ≠ .ROOT) : behindRoot up path = up ++ path.map cStruct := by
  induction path generalizing up with
  | nil => exact (List.append_nil up).symm
  | cons t path ih =>
    have hstep : behindRoot up (t :: path) = behindRoot (up ++ [cStruct t]) path := by
      unfold behindRoot
      rw [List.foldl_cons, if_neg (h t List.mem_cons_self)]
    rw [hstep, ih fun u hu => h u (List.mem_cons_of_mem t hu), List.append_assoc]
    rfl

theorem glueFnsAll_eq (up : List CparserNode) (ts : List (LabelTree GenNode))
    : glueFnsAll up ts = ts.flatMap (glueFns up) := by
  induction ts with
  | nil => rfl
  | cons t ts ih =>
    rw [glueFnsAll, ih]
    rfl

theorem glueFns_eq (up : List CparserNode) (t : LabelTree GenNode)
    : glueFns up t
        =
      (if t.data.type = .END ∧ .OPT_PARTIAL ∉ t.data.flags then [(t.data.param, behindRoot up [t])] else [])
        ++ t.children.flatMap (glueFns (behindRoot up [t])) := by
  cases t with
  | node data children =>
    rw [glueFns, glueFnsAll_eq]
    rfl

theorem glueFns_subset (h : Descends t path)
    : glueFns (behindRoot up (t :: path).dropLast) (path.getLastD t) ⊆ glueFns up t := by
  induction path generalizing t up with
  | nil => exact List.Subset.refl _
  | cons u path ih =>
    rcases descends_cons.mp h with ⟨hu, hrest⟩
    have hsub := @ih u (behindRoot up [t]) hrest
    rw [List.dropLast_cons_cons, List.getLastD_cons]
    intro entry hentry
    rw [glueFns_eq]
    apply List.mem_append_right
    exact List.mem_flatMap.mpr ⟨u, hu, hsub hentry⟩

theorem mem_glueFns (h : Descends t path) (htype : (path.getLastD t).data.type = .END)
    (hflags : .OPT_PARTIAL ∉ (path.getLastD t).data.flags)
    : ((path.getLastD t).data.param, behindRoot up (t :: path)) ∈ glueFns up t := by
  apply glueFns_subset h
  rw [glueFns_eq, if_pos ⟨htype, hflags⟩, ← behindRoot_append]
  have hconcat : (t :: path).dropLast ++ [path.getLastD t] = t :: path := by
    have hlast : path.getLastD t = (t :: path).getLast (List.cons_ne_nil t path) := by
      rw [List.getLast_eq_getLastD]
    rw [hlast, List.dropLast_concat_getLast]
  rw [hconcat]
  exact List.mem_append_left _ (List.mem_singleton_self _)

end Structs

section Lines

variable {st : CliFile} {o : Outline} {paths : List (List GenNode)} {c c' : Command} {n n' : GenNode} {k k' : Nat}
  {front front' rest rest' : List GenNode} {mode nodes : List GenNode} {param : List Char} {u : LabelTree GenNode} {pre path : List (LabelTree GenNode)}

def GenNode.leaf (n : GenNode) : CparserNode := cStruct (.node n [])

/--
A grammar that the parser can work with: only the generator makes roots and ends, the words fit into a token,
what is behind the start of an optional part can be left out, lines that share a node agree on whether it is
optional, every mode has a command, and no line has more nodes than the stack of tokens has room for.
-/
@[mk_iff]
structure WellFormed (o : Outline) : Prop where
  types : ∀ c ∈ o.commands, ∀ n ∈ c.nodes, n.type ≠ .ROOT ∧ n.type ≠ .END
  keyword : ∀ c ∈ o.commands, ∀ n ∈ c.nodes, n.type = .KEYWORD → n.param.length ≤ CPARSER_MAX_TOKEN_SIZE
  list : ∀ c ∈ o.commands, ∀ n ∈ c.nodes, ∀ kw ∈ n.list_kw, kw.length ≤ CPARSER_MAX_TOKEN_SIZE
  starts : ∀ c ∈ o.commands, starts c.nodes = c.num_opt_start
  leavesOut : ∀ c ∈ o.commands, ∀ i (hi : i < c.nodes.length),
    (∃ s ∈ c.nodes.take (i + 1), .OPT_START ∈ s.flags) → LeavesOut c.nodes[i].leaf
  agree : ∀ c ∈ o.commands, ∀ c' ∈ o.commands, ∀ i (hi : i < c.nodes.length), ∀ j (hj : j < c'.nodes.length),
    keysOf (c.mode ++ c.nodes.take (i + 1)) = keysOf (c'.mode ++ c'.nodes.take (j + 1)) →
      isOptional c.nodes[i].leaf = isOptional c'.nodes[j].leaf
  top : o.commands ≠ []
  submodes : ∀ path ∈ o.submodes, ∃ c ∈ o.commands, c.mode = path
  short : ∀ c ∈ o.commands, c.nodes.length < CPARSER_MAX_NUM_TOKENS

instance (node : CparserNode) : Decidable (LeavesOut node) := inferInstanceAs (Decidable (_ → _))

instance (o : Outline) : Decidable (WellFormed o) := decidable_of_iff _ (wellFormed_iff o).symm

theorem keysOf_append (nodes mode : List GenNode) : keysOf (nodes ++ mode) = keysOf nodes ++ keysOf mode :=
  List.map_append

theorem getLast_isMode {subs : List (List GenNode)} (h : IsMode subs mode param)
    : (∀ key ∈ (keysOf mode).getLast?, key.1 = .ROOT)
        ∧ param = (((keysOf mode).getLast?.map Prod.snd).getD []) := by
  cases h with
  | top => exact ⟨nofun, rfl⟩
  | submode front name hmem =>
    rw [keysOf_append, keysOf, keysOf, List.map_singleton, List.getLast?_concat]
    exact ⟨fun key hkey => Option.some.inj hkey ▸ rfl, rfl⟩

def glueNames (ks : List (NodeType × List Char)) : List Char :=
  ks.flatMap fun key => '_' :: key.2.map fun ch => if ch = '-' then '_' else ch

theorem glue_fn_eq (h : Built st o paths) (hc : c ∈ o.commands)
    : c.glue_fn
        =
      "cparser_glue".toList ++ ((keysOf c.mode).getLast?.map Prod.snd).getD [] ++ glueNames (keysOf c.nodes) := by
  rw [← (getLast_isMode (h.modes c hc)).2]
  unfold Command.glue_fn glueNames keysOf
  rw [List.flatMap_map]
  rfl

theorem length_glueNames_lt (h : k < starts nodes)
    : (glueNames (keysOf (cutNodes k nodes))).length < (glueNames (keysOf nodes)).length := by
  rcases exists_start_of_lt h with ⟨n, rest, heq, -⟩
  have hsplit : glueNames (keysOf nodes)
      = glueNames (keysOf (cutNodes k nodes)) ++ glueNames (keysOf (n :: rest)) := by
    unfold glueNames
    rw [← List.flatMap_append, ← keysOf_append, ← heq]
  rw [hsplit, List.length_append]
  apply Nat.lt_add_of_pos_right
  unfold glueNames keysOf
  rw [List.map_cons, List.flatMap_cons, List.length_append, List.length_cons]
  omega

abbrev treeKeys (path : List (LabelTree GenNode)) : List (NodeType × List Char) := path.map fun t => t.data.key

theorem treeKeys_append (pre path : List (LabelTree GenNode))
    : treeKeys (pre ++ path) = treeKeys pre ++ treeKeys path := List.map_append

theorem getLast_treeKeys {t : LabelTree GenNode} (h : (pre.getLastD t).data.type = .ROOT)
    : ∀ key ∈ (treeKeys pre).getLast?, key.1 = .ROOT := by
  intro key hkey
  rw [List.getLast?_map] at hkey
  rcases Option.map_eq_some_iff.mp hkey with ⟨last, hlast, rfl⟩
  rw [List.getLastD_eq_getLast?, hlast] at h
  exact h

theorem treeKeys_ne {type : NodeType} (h : ∀ t ∈ path, t.data.type ≠ type) : ∀ key ∈ treeKeys path, key.1 ≠ type := by
  intro key hkey
  rcases List.mem_map.mp hkey with ⟨t, ht, rfl⟩
  exact h t ht

theorem keysOf_ne {type : NodeType} (h : ∀ n ∈ nodes, n.type ≠ type) : ∀ key ∈ keysOf nodes, key.1 ≠ type := by
  intro key hkey
  rcases List.mem_map.mp hkey with ⟨n, hn, rfl⟩
  exact h n hn

theorem mem_nodes_of_cut (h : n ∈ cutNodes k nodes) : n ∈ nodes := (cutNodes_le k nodes).subset h

theorem WellFormed.cut_ne (hwell : WellFormed o) (hc : c ∈ o.commands) (k : Nat)
    : ∀ key ∈ keysOf (cutNodes k c.nodes), key.1 ≠ .ROOT :=
  keysOf_ne fun n hn => (hwell.types c hc n (mem_nodes_of_cut hn)).1

theorem node_at (hnodes : nodes = front ++ n :: rest)
    : ∃ hlt : front.length < nodes.length, nodes[front.length] = n
      ∧ nodes.take (front.length + 1) = front ++ [n] := by
  subst hnodes
  refine ⟨by simp, by simp, ?_⟩
  rw [List.take_length_add_append]
  rfl

theorem WellFormed.leavesOut_at (hwell : WellFormed o) (hc : c ∈ o.commands) (hnodes : c.nodes = front ++ n :: rest)
    (hstart : ∃ s ∈ front ++ [n], .OPT_START ∈ s.flags) : LeavesOut n.leaf := by
  rcases node_at hnodes with ⟨hlt, hn, htake⟩
  rw [← hn]
  exact hwell.leavesOut c hc _ hlt (htake ▸ hstart)

theorem WellFormed.agree_at (hwell : WellFormed o) (hc : c ∈ o.commands) (hc' : c' ∈ o.commands)
    (hnodes : c.nodes = front ++ n :: rest) (hnodes' : c'.nodes = front' ++ n' :: rest')
    (hkeys : keysOf (c.mode ++ (front ++ [n])) = keysOf (c'.mode ++ (front' ++ [n'])))
    : isOptional n.leaf = isOptional n'.leaf := by
  rcases node_at hnodes with ⟨hlt, hn, htake⟩
  rcases node_at hnodes' with ⟨hlt', hn', htake'⟩
  rw [← htake, ← htake'] at hkeys
  rw [← hn, ← hn']
  exact hwell.agree c hc c' hc' _ hlt _ hlt' hkeys

theorem WellFormed.cut_all (hwell : WellFormed o) (hc : c ∈ o.commands)
    : cutNodes c.num_opt_start c.nodes = c.nodes := cutNodes_of_le (Nat.le_of_eq (hwell.starts c hc))

theorem Built.provenance_concat (h : Built st o paths) (hpath : Descends st.root (pre ++ [u]))
    : Provenance o.commands o.submodes (treeKeys pre ++ [u.data.key]) u.data := by
  have hdescend := h.distinct.descend_keys hpath
  rw [List.getLastD_concat] at hdescend
  have hprov := h.provenance (by simp) hdescend
  rwa [List.map_append, List.map_singleton] at hprov

theorem Built.line_of_end (h : Built st o paths) (hwell : WellFormed o) (hpath : Descends st.root (pre ++ path ++ [u]))
    (hroot : (pre.getLastD st.root).data.type = .ROOT) (htypes : ∀ t ∈ path, t.data.type ≠ .ROOT)
    (hu : u.data.type = .END)
    : ∃ c ∈ o.commands, ∃ k ≤ c.num_opt_start, u.data = c.endNode k ∧ treeKeys pre = keysOf c.mode
        ∧ treeKeys path = keysOf (cutNodes k c.nodes) := by
  have hprov := h.provenance_concat hpath
  rw [treeKeys_append] at hprov
  generalize hks : treeKeys pre ++ treeKeys path ++ [u.data.key] = ks at hprov
  generalize hdata : u.data = data at hprov
  cases hprov with
  | word c front _ rest hc hnodes =>
    have hn : data ∈ c.nodes := by
      rw [hnodes]
      exact List.mem_append_right _ List.mem_cons_self
    exact absurd (hdata ▸ hu) (hwell.types c hc data hn).2
  | ends c k hc hk =>
    rw [Command.path, keysOf_append, keysOf_append] at hks
    have hkeys := (List.append_inj' hks rfl).1
    have hsplit := append_inj_of_last hkeys (getLast_treeKeys hroot) (getLast_isMode (h.modes c hc)).1
      (treeKeys_ne htypes) (hwell.cut_ne hc k)
    exact ⟨c, hc, k, hk, rfl, hsplit.1, hsplit.2⟩
  | mode front name hmem =>
    rw [hdata] at hu
    contradiction

theorem Built.line_of_word (h : Built st o paths) (hwell : WellFormed o)
    (hpath : Descends st.root (pre ++ path ++ [u])) (hroot : (pre.getLastD st.root).data.type = .ROOT)
    (htypes : ∀ t ∈ path, t.data.type ≠ .ROOT) (hend : u.data.type ≠ .END) (hnode : u.data.type ≠ .ROOT)
    : ∃ c ∈ o.commands, ∃ front rest, c.nodes = front ++ u.data :: rest ∧ treeKeys pre = keysOf c.mode
        ∧ treeKeys path = keysOf front := by
  have hprov := h.provenance_concat hpath
  rw [treeKeys_append] at hprov
  generalize hks : treeKeys pre ++ treeKeys path ++ [u.data.key] = ks at hprov
  generalize hdata : u.data = data at hprov
  cases hprov with
  | word c front _ rest hc hnodes =>
    rw [keysOf_append, keysOf_append] at hks
    have hkeys := (List.append_inj' hks rfl).1
    have hfront : ∀ key ∈ keysOf front, key.1 ≠ .ROOT := keysOf_ne fun n hn =>
      (hwell.types c hc n (by rw [hnodes]; exact List.mem_append_left _ hn)).1
    have hsplit := append_inj_of_last hkeys (getLast_treeKeys hroot) (getLast_isMode (h.modes c hc)).1
      (treeKeys_ne htypes) hfront
    exact ⟨c, hc, front, rest, hnodes, hsplit.1, hsplit.2⟩
  | ends c k hc hk =>
    rw [hdata, Command.endNode] at hend
    split at hend
    . exact absurd rfl hend
    . exact absurd rfl hend
  | mode front name hmem =>
    rw [hdata] at hnode
    exact absurd rfl hnode

structure Drawn (st : CliFile) (c : Command) (pre path : List (LabelTree GenNode)) (u : LabelTree GenNode) : Prop where
  descends : Descends st.root (pre ++ path ++ [u])
  root : (pre.getLastD st.root).data.type = .ROOT
  mode_eq : treeKeys pre = keysOf c.mode
  nodes_eq : treeKeys path = keysOf c.nodes
  end_eq : u.data.key = (.END, c.glue_fn)
  flags : .OPT_PARTIAL ∉ u.data.flags

theorem type_of_key {t : LabelTree GenNode} {key : NodeType × List Char} (h : t.data.key = key)
    : t.data.type = key.1 := h ▸ rfl

theorem types_of_treeKeys {type : NodeType} (h : ∀ key ∈ treeKeys path, key.1 ≠ type)
    : ∀ t ∈ path, t.data.type ≠ type :=
  fun t ht => h t.data.key (List.mem_map_of_mem ht)

theorem root_of_treeKeys {t : LabelTree GenNode} (ht : t.data.type = .ROOT)
    (h : ∀ key ∈ (treeKeys pre).getLast?, key.1 = .ROOT) : (pre.getLastD t).data.type = .ROOT := by
  rw [List.getLast?_map] at h
  rw [List.getLastD_eq_getLast?]
  cases hlast : pre.getLast? with
  | none => exact ht
  | some last => exact h last.data.key (by rw [hlast]; rfl)

theorem Built.exists_drawn (h : Built st o paths) (hwell : WellFormed o) (hc : c ∈ o.commands)
    : ∃ pre path u, Drawn st c pre path u := by
  have hmem := h.commands c hc _ (Nat.le_refl _)
  have hks : keysOf (c.path c.num_opt_start) ≠ [] := by
    unfold Command.path keysOf
    simp
  rcases Option.isSome_iff_exists.mp ((h.descend_isSome hks).mpr ⟨_, hmem, List.prefix_rfl⟩) with ⟨u', hu'⟩
  rcases exists_descends hu' with ⟨all, hall, hkeys, -⟩
  rw [Command.path, hwell.cut_all hc, keysOf_append, keysOf_append] at hkeys
  rcases List.map_eq_append_iff.mp hkeys with ⟨front, ends, rfl, hfront, hends⟩
  rcases List.map_eq_append_iff.mp hfront with ⟨pre, path, rfl, hpre, hpath⟩
  rcases List.map_eq_singleton_iff.mp hends with ⟨u, rfl, hu⟩
  have hroot : (pre.getLastD st.root).data.type = .ROOT := by
    apply root_of_treeKeys
    . rw [h.data_root]
      rfl
    . rw [treeKeys, hpre]
      exact (getLast_isMode (h.modes c hc)).1
  have hend : c.endNode c.num_opt_start = ⟨.END, c.glue_fn, c.comment, c.hidden_flag, []⟩ := if_pos rfl
  rw [hend] at hu
  refine ⟨pre, path, u, hall, hroot, hpre, hpath, hu, ?_⟩
  have htypes : ∀ t ∈ path, t.data.type ≠ .ROOT := by
    apply types_of_treeKeys
    rw [treeKeys, hpath, ← hwell.cut_all hc]
    exact hwell.cut_ne hc _
  -- the end that is there was made for a line with the same name, so none of its nodes was cut
  rcases h.line_of_end hwell hall hroot htypes (type_of_key hu) with ⟨c', hc', k, hk, hdata, hmode, hcut⟩
  rw [treeKeys, hpre] at hmode
  rw [treeKeys, hpath] at hcut
  have hname : c'.glue_fn = c.glue_fn := by
    have hkey := congrArg GenNode.key hdata
    rw [hu] at hkey
    unfold Command.endNode at hkey
    split at hkey
    . exact (congrArg Prod.snd hkey).symm
    . exact (congrArg Prod.snd hkey).symm
  have hall : c'.num_opt_start = k := by
    by_contra hne
    have hlt : k < starts c'.nodes := by
      rw [hwell.starts c' hc']
      omega
    have hlen := length_glueNames_lt hlt
    rw [glue_fn_eq h hc, glue_fn_eq h hc', hmode, hcut] at hname
    rw [← List.append_cancel_left hname] at hlen
    exact Nat.lt_irrefl _ hlen
  rw [hdata, Command.endNode, if_pos hall]
  exact h.hidden c' hc'

theorem leavesOut_congr {node node' : CparserNode} (htype : node.type = node'.type)
    (hoptional : isOptional node = isOptional node') (h : LeavesOut node') : LeavesOut node := by
  intro hparam
  unfold isParam at hparam
  rw [htype] at hparam
  rcases h hparam with ⟨hopt, hlist⟩
  exact ⟨hoptional.trans hopt, htype ▸ hlist⟩

theorem isOptional_cStruct (t : LabelTree GenNode) : isOptional (cStruct t) = isOptional t.data.leaf := by
  cases t with
  | node data children => rfl

theorem Built.leavesOut_behind (h : Built st o paths) (hwell : WellFormed o) (hc : c ∈ o.commands)
    {path' : List (LabelTree GenNode)} (hdrawn : Drawn st c pre (path ++ path') u)
    (hcut : treeKeys path = keysOf (cutNodes k c.nodes)) : ∀ t ∈ path', LeavesOut (cStruct t) := by
  intro t ht
  rcases List.append_of_mem ht with ⟨front, back, rfl⟩
  have hkeys := hdrawn.nodes_eq
  rw [← List.append_assoc, treeKeys_append] at hkeys
  rcases List.map_eq_append_iff.mp hkeys.symm with ⟨before, behind, hnodes, hbefore, hbehind⟩
  rcases List.map_eq_cons_iff.mp hbehind with ⟨n, rest, rfl, hn, -⟩
  have hlen := congrArg List.length hcut
  have hlen' := congrArg List.length hbefore
  rw [List.length_map, List.length_map] at hlen hlen'
  rw [List.length_append] at hlen'
  have hleaves := hwell.leavesOut_at hc hnodes (exists_start_of_length_le hnodes (k := k) (by omega))
  have hmem : ∀ m ∈ before ++ [n], m ∈ c.nodes := by
    intro m hm
    rw [hnodes, List.append_cons]
    exact List.mem_append_left _ hm
  have hntype := hwell.types c hc n (hmem n (by simp))
  have htype : t.data.type = n.type := congrArg Prod.fst hn.symm
  have htypes : ∀ t ∈ path ++ front, t.data.type ≠ .ROOT := by
    apply types_of_treeKeys
    rw [← hbefore]
    exact keysOf_ne fun m hm => (hwell.types c hc m (hmem m (List.mem_append_left _ hm))).1
  have hall : Descends st.root (pre ++ (path ++ front) ++ [t] ++ (back ++ [u])) := by
    simpa using hdrawn.descends
  have hnode := (descends_append.mp hall).1
  -- the node of the tree can have been made for another line
  rcases h.line_of_word hwell hnode hdrawn.root htypes (htype ▸ hntype.2) (htype ▸ hntype.1)
    with ⟨c', hc', front', rest', hnodes', hmode, hfront⟩
  have hagree := hwell.agree_at hc hc' hnodes hnodes' (by
    rw [keysOf_append, keysOf_append, keysOf_append, keysOf_append, ← hmode, ← hfront, hdrawn.mode_eq, ← hbefore]
    exact congrArg (fun key => _ ++ (_ ++ [key])) hn)
  exact leavesOut_congr (by rw [type_cStruct, htype]; rfl) (by rw [isOptional_cStruct, hagree]) hleaves

end Lines

section Ends

variable {st : CliFile} {o : Outline} {paths : List (List GenNode)} {c : Command} {n : GenNode} {k : Nat} {env : Env}
  {nodes : List GenNode} {t e : LabelTree GenNode} {ts pre path rest : List (LabelTree GenNode)}
  {root child : CparserNode} {words : List CparserNode}

structure MadeFor (node : CparserNode) (n : GenNode) : Prop where
  type_eq : node.type = n.type
  param_eq : n.type ≠ .LIST → node.param = n.cParam

theorem madeFor_of_key (h : t.data.key = n.key) : MadeFor (cStruct t) n := by
  have htype : t.data.type = n.type := congrArg Prod.fst h
  have hparam : t.data.param = n.param := congrArg Prod.snd h
  refine ⟨by rw [type_cStruct, htype], fun hlist => ?_⟩
  rw [param_cStruct]
  unfold GenNode.cParam
  rw [htype, hparam]
  cases hn : n.type with
  | LIST => exact absurd hn hlist
  | _ => rfl

theorem madeFor_of_treeKeys (h : treeKeys ts = keysOf nodes) : List.Forall₂ MadeFor (ts.map cStruct) nodes := by
  induction ts generalizing nodes with
  | nil =>
    cases nodes with
    | nil => exact .nil
    | cons n nodes => contradiction
  | cons t ts ih =>
    cases nodes with
    | nil => contradiction
    | cons n nodes =>
      rcases List.cons_eq_cons.mp h with ⟨hkey, hrest⟩
      exact .cons (madeFor_of_key hkey) (ih hrest)

def linkedGlue (root : LabelTree GenNode) (fn : List Char) : Option (List CparserNode) :=
  ((glueFns [] root).find? fun entry => entry.1 = fn).map Prod.snd

/-- The glue functions of a tree are linked: no two of them have the same name. -/
structure Env.Links (env : Env) (root : LabelTree GenNode) : Prop where
  glue_eq : env.glue = linkedGlue root
  nodup : ((glueFns [] root).map Prod.fst).Nodup

theorem Env.Links.glue {root : LabelTree GenNode} (h : env.Links root) {entry : List Char × List CparserNode}
    (hentry : entry ∈ glueFns [] root) : env.glue entry.1 = some entry.2 := by
  have hnodup := h.nodup
  rw [h.glue_eq, linkedGlue]
  generalize glueFns [] root = entries at hentry hnodup
  induction entries with
  | nil => contradiction
  | cons first entries ih =>
    rw [List.map_cons, List.nodup_cons] at hnodup
    rw [List.find?_cons]
    rcases List.mem_cons.mp hentry with rfl | hentry
    . simp
    . have hne : ¬first.1 = entry.1 := fun heq => hnodup.1 (heq ▸ List.mem_map_of_mem hentry)
      simp only [hne, decide_false]
      exact ih hentry hnodup.2

structure Command.Ends (c : Command) (st : CliFile) (o : Outline) (k : Nat) (root : CparserNode)
    (words : List CparserNode) : Prop where
  mem : c ∈ o.commands
  k_le : k ≤ c.num_opt_start
  mode : ∃ r, st.root.descend GenNode.key (keysOf c.mode) = some r ∧ cStruct r = root
  made : List.Forall₂ MadeFor words (cutNodes k c.nodes)

structure Command.Calls (c : Command) (env : Env) (words : List CparserNode) (child : CparserNode)
    (nodes : List CparserNode) : Prop where
  param_eq : child.param = .glue c.glue_fn
  hidden : .HIDDEN ∈ c.hidden_flag → .HIDDEN ∈ child.flags
  linked : env.glue c.glue_fn = some nodes
  made : List.Forall₂ MadeFor nodes (c.nodes ++ [c.endNode c.num_opt_start])
  glues : Glues nodes words

theorem param_endNode (c : Command) (k : Nat) : (c.endNode k).cParam = .glue c.glue_fn := by
  unfold Command.endNode
  split
  . rfl
  . rfl

theorem hidden_endNode (c : Command) (k : Nat) (h : .HIDDEN ∈ c.hidden_flag) : .HIDDEN ∈ (c.endNode k).flags := by
  unfold Command.endNode
  split
  . exact h
  . exact List.mem_cons_of_mem _ h

theorem Built.exists_drawn_of_cut (h : Built st o paths) (hwell : WellFormed o) (hc : c ∈ o.commands)
    (hpath : Descends st.root (pre ++ path)) (hmode : treeKeys pre = keysOf c.mode)
    (hcut : treeKeys path = keysOf (cutNodes k c.nodes)) : ∃ rest e, Drawn st c pre (path ++ rest) e := by
  rcases h.exists_drawn hwell hc with ⟨pre', path', e, hdrawn⟩
  have hlen : pre.length = pre'.length := by
    have heq := congrArg List.length (hmode.trans hdrawn.mode_eq.symm)
    rwa [List.length_map, List.length_map] at heq
  have hle : pre ++ path <+: pre' ++ path' := by
    apply h.distinct.prefix_of_keys hpath (descends_append.mp hdrawn.descends).1
    change treeKeys (pre ++ path) <+: treeKeys (pre' ++ path')
    rw [treeKeys_append, treeKeys_append, hmode, hcut, hdrawn.mode_eq, hdrawn.nodes_eq]
    exact List.prefix_append_right_inj _ |>.mpr ((cutNodes_le k c.nodes).map _)
  rcases hle with ⟨rest, hrest⟩
  rw [List.append_assoc] at hrest
  rcases List.append_inj hrest hlen with ⟨rfl, rfl⟩
  exact ⟨rest, e, hdrawn⟩

theorem Drawn.mem_glueFns (h : Drawn st c pre path e) (hwell : WellFormed o) (hc : c ∈ o.commands)
    : (c.glue_fn, (path ++ [e]).map cStruct) ∈ glueFns [] st.root := by
  have hend : ((pre ++ path ++ [e]).getLastD st.root) = e := List.getLastD_concat
  have hentry := @Client.mem_glueFns _ (pre ++ path ++ [e]) [] h.descends
    (by rw [hend]; exact congrArg Prod.fst h.end_eq) (by rw [hend]; exact h.flags)
  have hnodes : behindRoot [] (st.root :: (pre ++ path ++ [e])) = (path ++ [e]).map cStruct := by
    have hconcat : st.root :: (pre ++ path ++ [e])
        = (st.root :: pre).dropLast ++ [pre.getLastD st.root] ++ (path ++ [e]) := by
      rw [← List.getLast_eq_getLastD (List.cons_ne_nil _ _), List.dropLast_concat_getLast]
      simp
    rw [hconcat, behindRoot_append, behindRoot_concat_root _ h.root, behindRoot_of_ne, List.nil_append]
    intro t ht
    rcases List.mem_append.mp ht with ht | ht
    . have hkey : t.data.key ∈ keysOf c.nodes := h.nodes_eq ▸ List.mem_map_of_mem ht
      rcases List.mem_map.mp hkey with ⟨n, hn, heq⟩
      rw [show t.data.type = n.type from congrArg Prod.fst heq.symm]
      exact (hwell.types c hc n hn).1
    . rw [List.mem_singleton.mp ht, type_of_key h.end_eq]
      nofun
  rwa [hend, hnodes, show e.data.param = c.glue_fn from congrArg Prod.snd h.end_eq] at hentry

theorem Built.glues_drawn (h : Built st o paths) (hwell : WellFormed o) (hc : c ∈ o.commands)
    (hdrawn : Drawn st c pre (path ++ rest) e) (hcut : treeKeys path = keysOf (cutNodes k c.nodes))
    : Glues ((path ++ rest ++ [e]).map cStruct) (path.map cStruct) := by
  rw [List.append_assoc, List.map_append]
  refine ⟨List.prefix_append _ _, ?_⟩
  intro node hnode
  rw [List.drop_append_of_le_length (Nat.le_refl _), List.drop_length, List.nil_append, List.map_append] at hnode
  rcases List.mem_append.mp hnode with hnode | hnode
  . rcases List.mem_map.mp hnode with ⟨t, ht, rfl⟩
    exact h.leavesOut_behind hwell hc hdrawn hcut t ht
  . rw [List.map_singleton, List.mem_singleton] at hnode
    intro hparam
    rw [hnode, isParam, type_cStruct, type_of_key hdrawn.end_eq] at hparam
    contradiction

theorem Built.ends (h : Built st o paths) (hwell : WellFormed o) (hlinks : env.Links st.root)
    (hroot : ModeRoot (cStruct st.root) root) (hwords : WordPath root words)
    (hchild : child ∈ (words.getLastD root).children) (htype : child.type = .END)
    : ∃ (c : Command) (k : Nat) (nodes : List CparserNode), c.Ends st o k root words ∧ c.Calls env words child nodes := by
  rcases exists_descends_of_within hroot.within with ⟨pre, hpre, rfl⟩
  rcases exists_descends_of_isChain hwords.chain with ⟨path, hpath, rfl⟩
  rw [List.getLastD_map, children_cStruct] at hchild
  rcases List.mem_map.mp hchild with ⟨u, hu, rfl⟩
  rw [type_cStruct] at htype
  have htop : (pre.getLastD st.root).data.type = .ROOT := by
    rw [← type_cStruct]
    exact hroot.type_eq
  have hboth : Descends st.root (pre ++ path) := descends_append.mpr ⟨hpre, hpath⟩
  have hall : Descends st.root (pre ++ path ++ [u]) := by
    rw [List.append_assoc]
    exact descends_append.mpr ⟨hpre, descends_append.mpr ⟨hpath, descends_cons.mpr ⟨hu, descends_nil u⟩⟩⟩
  have htypes : ∀ t ∈ path, t.data.type ≠ .ROOT := by
    intro t ht
    rw [← type_cStruct]
    exact (hwords.types _ (List.mem_map_of_mem ht)).2
  rcases h.line_of_end hwell hall htop htypes htype with ⟨c, hc, k, hk, hdata, hmode, hcut⟩
  rcases h.exists_drawn_of_cut hwell hc hboth hmode hcut with ⟨rest, e, hdrawn⟩
  refine ⟨c, k, (path ++ rest ++ [e]).map cStruct, ⟨hc, hk, ⟨pre.getLastD st.root, ?_, rfl⟩, madeFor_of_treeKeys hcut⟩,
    ?_, ?_, hlinks.glue (hdrawn.mem_glueFns hwell hc), ?_, h.glues_drawn hwell hc hdrawn hcut⟩
  . rw [← hmode]
    exact h.distinct.descend_keys hpre
  . rw [param_cStruct, hdata, param_endNode]
  . rw [flags_cStruct, hdata]
    exact hidden_endNode c k
  . apply madeFor_of_treeKeys
    rw [treeKeys_append, hdrawn.nodes_eq, keysOf_append]
    congr 1
    rw [treeKeys, keysOf, List.map_singleton, List.map_singleton, hdrawn.end_eq, Command.endNode, if_pos rfl]
    rfl

end Ends

section Sound

variable {st : CliFile} {o : Outline} {paths : List (List GenNode)} {c : Command} {n : GenNode} {t u : LabelTree GenNode}
  {path : List (LabelTree GenNode)} {word : List Char} {node : CparserNode} {ch : Char}
  {ks : List (NodeType × List Char)} {key : NodeType × List Char}

theorem ne_of_isKeywordChar (h : isKeywordChar ch = true) {ch' : Char} (h' : isKeywordChar ch' = false) : ch ≠ ch' := by
  rintro rfl
  rw [h] at h'
  contradiction

theorem isWord_of_validKeyword (h : validKeyword word = true) (hlen : word.length ≤ CPARSER_MAX_TOKEN_SIZE)
    : IsWord word := by
  rw [validKeyword_iff] at h
  exact ⟨h.1, fun hmem => ne_of_isKeywordChar (h.2 _ hmem) (by decide) rfl, hlen⟩

theorem Built.node_cases (h : Built st o paths) (hnode : Within (cStruct st.root) node)
    : node = cStruct st.root ∨ ∃ ks u, ks ≠ [] ∧ st.root.descend GenNode.key ks = some u ∧ node = cStruct u
      ∧ Provenance o.commands o.submodes ks u.data := by
  rcases exists_descends_of_within hnode with ⟨path, hpath, rfl⟩
  cases path with
  | nil => exact .inl rfl
  | cons t path =>
    have hdescend := h.distinct.descend_keys hpath
    exact .inr ⟨_, _, List.cons_ne_nil _ _, hdescend, rfl, h.provenance (List.cons_ne_nil _ _) hdescend⟩

theorem Built.word_of_type (h : Built st o paths) (hnode : Within (cStruct st.root) node) (hroot : node.type ≠ .ROOT)
    (hend : node.type ≠ .END) : ∃ u, node = cStruct u ∧ ∃ c ∈ o.commands, u.data ∈ c.nodes := by
  rcases h.node_cases hnode with rfl | ⟨ks, u, hks, hdescend, rfl, hprov⟩
  . rw [type_cStruct, h.data_root] at hroot
    exact absurd rfl hroot
  . rw [type_cStruct] at hroot hend
    refine ⟨u, rfl, ?_⟩
    generalize u.data = data at hprov hroot hend
    cases hprov with
    | word c front _ rest hc hnodes => exact ⟨c, hc, hnodes ▸ List.mem_append_right _ List.mem_cons_self⟩
    | ends c k hc hk =>
      unfold Command.endNode at hend
      split at hend
      . exact absurd rfl hend
      . exact absurd rfl hend
    | mode front name hmem => exact absurd rfl hroot

theorem Built.keyword_param (h : Built st o paths) (hnode : Within (cStruct st.root) node) (htype : node.type = .KEYWORD)
    : ∃ c ∈ o.commands, ∃ n ∈ c.nodes, n.type = .KEYWORD ∧ node.paramText = n.param := by
  rcases h.word_of_type hnode (by rw [htype]; nofun) (by rw [htype]; nofun) with ⟨u, rfl, c, hc, hn⟩
  rw [type_cStruct] at htype
  refine ⟨c, hc, u.data, hn, htype, ?_⟩
  unfold CparserNode.paramText
  rw [param_cStruct, GenNode.cParam, htype]

theorem Built.list_ne (h : Built st o paths) (hnode : Within (cStruct st.root) node) (htype : node.type = .LIST)
    : node.paramList ≠ [] := by
  rcases h.word_of_type hnode (by rw [htype]; nofun) (by rw [htype]; nofun) with ⟨u, rfl, c, hc, hn⟩
  rw [type_cStruct] at htype
  unfold CparserNode.paramList
  rw [param_cStruct, GenNode.cParam, htype]
  exact (h.nodes c hc u.data hn).list_ne htype

theorem Built.list_param (h : Built st o paths) (hnode : Within (cStruct st.root) node) (hword : word ∈ node.paramList)
    : ∃ c ∈ o.commands, ∃ n ∈ c.nodes, n.type = .LIST ∧ word ∈ n.list_kw := by
  have htype : node.type = .LIST := by
    rcases exists_descends_of_within hnode with ⟨path, -, rfl⟩
    rw [type_cStruct]
    unfold CparserNode.paramList at hword
    rw [param_cStruct] at hword
    generalize (path.getLastD st.root).data = data at hword
    unfold GenNode.cParam at hword
    cases hdata : data.type with
    | LIST => rfl
    | _ => simp [hdata] at hword
  rcases h.word_of_type hnode (by rw [htype]; nofun) (by rw [htype]; nofun) with ⟨u, rfl, c, hc, hn⟩
  rw [type_cStruct] at htype
  refine ⟨c, hc, u.data, hn, htype, ?_⟩
  unfold CparserNode.paramList at hword
  rw [param_cStruct, GenNode.cParam, htype] at hword
  exact hword

theorem Built.children_ne (h : Built st o paths) {p : List GenNode} (hp : p ∈ paths) (hle : ks ++ [key] <+: keysOf p)
    (hu : st.root.descend GenNode.key ks = some u) : (cStruct u).children ≠ [] := by
  have hsome := (h.descend_isSome (List.append_ne_nil_of_right_ne_nil ks (List.cons_ne_nil key []))).mpr ⟨p, hp, hle⟩
  rw [children_cStruct]
  intro hnil
  exact children_ne_of_descend hu hsome (List.map_eq_nil_iff.mp hnil)

theorem path_eq_append (c : Command) (k : Nat) : ∃ n rest, c.path k = c.mode ++ n :: rest := by
  unfold Command.path
  rw [List.append_assoc]
  cases cutNodes k c.nodes with
  | nil => exact ⟨_, _, rfl⟩
  | cons n rest => exact ⟨_, _, rfl⟩

theorem keysOf_concat_le {front rest : List GenNode} (n : GenNode) (hks : ks = keysOf front)
    : ks ++ [n.key] <+: keysOf (front ++ n :: rest) := by
  rw [hks, keysOf_append]
  exact ⟨keysOf rest, by rw [List.append_assoc]; rfl⟩

theorem Built.sound (h : Built st o paths) (hwell : WellFormed o) : (cStruct st.root).Sound := by
  constructor
  case keyword =>
    intro node hnode htype
    rcases h.keyword_param hnode htype with ⟨c, hc, n, hn, hkeyword, hparam⟩
    rw [hparam]
    exact isWord_of_validKeyword ((h.nodes c hc n hn).keyword hkeyword) (hwell.keyword c hc n hn hkeyword)
  case list =>
    intro node hnode word hword
    rcases h.list_param hnode hword with ⟨c, hc, n, hn, hlist, hmem⟩
    exact isWord_of_validKeyword ((h.nodes c hc n hn).list hlist word hmem) (hwell.list c hc n hn word hmem)
  case children =>
    intro node hnode htype
    rcases h.node_cases hnode with rfl | ⟨ks, u, hks, hdescend, rfl, hprov⟩
    . rcases List.exists_mem_of_ne_nil _ hwell.top with ⟨c, hc⟩
      rcases List.exists_cons_of_ne_nil (show c.path c.num_opt_start ≠ [] by unfold Command.path; simp)
        with ⟨n, rest, hpath⟩
      have hle : [] ++ [n.key] <+: keysOf ([] ++ n :: rest) := keysOf_concat_le n rfl
      exact h.children_ne (h.commands c hc _ (Nat.le_refl _)) (hpath ▸ hle) rfl
    . rw [type_cStruct] at htype
      generalize hdata : u.data = data at hprov htype
      cases hprov with
      | word c front _ rest hc hnodes =>
        have hpath : ∃ n more, c.path c.num_opt_start = c.mode ++ front ++ [data] ++ n :: more := by
          unfold Command.path
          rw [hwell.cut_all hc, hnodes]
          cases rest with
          | nil => exact ⟨c.endNode c.num_opt_start, [], by simp⟩
          | cons n rest => exact ⟨n, rest ++ [c.endNode c.num_opt_start], by simp⟩
        rcases hpath with ⟨n, more, hpath⟩
        exact h.children_ne (h.commands c hc _ (Nat.le_refl _)) (hpath ▸ keysOf_concat_le n rfl) hdescend
      | ends c k hc hk =>
        unfold Command.endNode at htype
        split at htype
        . exact absurd rfl htype
        . exact absurd rfl htype
      | mode front name hmem =>
        rcases hwell.submodes _ hmem with ⟨c, hc, hmode⟩
        rcases path_eq_append c c.num_opt_start with ⟨n, rest, hpath⟩
        rw [hmode] at hpath
        exact h.children_ne (h.commands c hc _ (Nat.le_refl _)) (hpath ▸ keysOf_concat_le n rfl) hdescend

theorem Built.shallow (h : Built st o paths) (hwell : WellFormed o) : (cStruct st.root).Shallow := by
  intro root path hroot hpath
  rcases exists_descends_of_within hroot.within with ⟨pre, hpre, rfl⟩
  rcases exists_descends_of_isChain hpath.chain with ⟨words, hwords, rfl⟩
  rw [List.length_map]
  rcases List.eq_nil_or_concat words with rfl | ⟨words, u, rfl⟩
  . exact Nat.zero_lt_succ _
  . rw [List.concat_eq_append] at hwords hpath ⊢
    have htypes : ∀ t ∈ words ++ [u], t.data.type ≠ .END ∧ t.data.type ≠ .ROOT := by
      intro t ht
      rw [← type_cStruct]
      exact hpath.types _ (List.mem_map_of_mem ht)
    have hlast := htypes u (List.mem_append_right _ (List.mem_singleton_self u))
    have hall : Descends st.root (pre ++ words ++ [u]) := by
      rw [List.append_assoc]
      exact descends_append.mpr ⟨hpre, hwords⟩
    rcases h.line_of_word hwell hall (type_cStruct ▸ hroot.type_eq)
      (fun t ht => (htypes t (List.mem_append_left _ ht)).2) hlast.1 hlast.2 with ⟨c, hc, front, rest, hnodes, -, hkeys⟩
    have hlen := congrArg List.length hkeys
    have hline := hwell.short c hc
    rw [List.length_map, List.length_map] at hlen
    rw [hnodes, List.length_append, List.length_cons] at hline
    rw [List.length_append, List.length_singleton, hlen]
    omega

end Sound

section Enter

variable {st : CliFile} {o : Outline} {paths : List (List GenNode)} {directives : List Directive} {env : Env} {priv : Bool}
  {root : CparserNode} {text fn : List Char} {args : Option (List (Option Value))} {p : Cparser}
  {events : List (Env × Key)}

/-- A command of the grammar is called: the words are those of its line and the arguments are their values. -/
structure Said (st : CliFile) (o : Outline) (env : Env) (priv : Bool) (root : CparserNode) (ws : List (List Char))
    (c : Command) (k : Nat) (words nodes : List CparserNode) (args : Option (List (Option Value))) : Prop where
  ends : c.Ends st o k root words
  resolved : resolve priv root ws = some words
  visible : priv = true ∨ .HIDDEN ∉ c.hidden_flag
  linked : env.glue c.glue_fn = some nodes
  made : List.Forall₂ MadeFor nodes (c.nodes ++ [c.endNode c.num_opt_start])
  leavesOut : ∀ node ∈ nodes.drop words.length, LeavesOut node
  args_eq : args = arguments env.is_reg nodes ws

theorem Built.said (h : Built st o paths) (hwell : WellFormed o) (hlinks : env.Links st.root)
    (hroot : ModeRoot (cStruct st.root) root) (hmeans : Means env priv root text (.calls fn args))
    : ∃ c k words nodes, fn = c.glue_fn
        ∧ Said st o env priv root (closedWords ' ' (enteredText env priv root text)) c k words nodes args := by
  generalize hmeaning : Meaning.calls fn args = meaning at hmeans
  cases hmeans with
  | rejected hrejects => contradiction
  | unfinished path haccepts hpath hopen hword => contradiction
  | line words haccepts hopen hwords =>
    unfold endMeaning at hmeaning
    split at hmeaning
    . next child hfind =>
      have hfound := List.find?_some hfind
      rw [Bool.and_eq_true, beq_iff_eq] at hfound
      rcases h.ends hwell hlinks hroot (wordPath_resolve hwords) (List.mem_of_find?_eq_some hfind) hfound.1
        with ⟨c, k, nodes, hends, hcalls⟩
      rw [hcalls.param_eq] at hmeaning
      dsimp only at hmeaning
      rw [hcalls.linked] at hmeaning
      cases hmeaning
      have hvisible : priv = true ∨ .HIDDEN ∉ c.hidden_flag := by
        have husable := hfound.2
        unfold nodeUsable at husable
        rw [Bool.or_eq_true, decide_eq_true_iff] at husable
        exact husable.imp_right fun hnot hhidden => hnot (hcalls.hidden hhidden)
      exact ⟨c, k, words, nodes, rfl, hends, hwords, hvisible, hcalls.linked, hcalls.made, hcalls.glues.leavesOut, rfl⟩
    . contradiction

end Enter

end SecFw.Client
