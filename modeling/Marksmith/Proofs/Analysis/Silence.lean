import Marksmith.Proofs.Analysis.Reordering
import Marksmith.Proofs.Host.Silence

/-!
The index of a host without method bodies: what the markers say is read off declarations and not off
statements (`ofHost_silenced`).
-/

namespace Marksmith.MarkerIndex

variable (host : Host)

/-! ### Markers -/

theorem optionsOf?_silenced {α : Type} (marker : Marker)
    (read : Attribute → Except OptionError α) (d : TypeDecl) :
    optionsOf? marker read d.silenced = optionsOf? marker read d := rfl

theorem injectMethods_silenced (d : TypeDecl) : injectMethods d.silenced = injectMethods d := by
  have kind : d.silenced.kind = d.kind := rfl
  rw [injectMethods, injectMethods, kind]
  split
  · exact List.filterMap_map
  · rfl

theorem methodProblems_silenced (d : TypeDecl) : methodProblems d.silenced = methodProblems d :=
  List.filterMap_map

theorem problems_silenced (d : TypeDecl) : problems d.silenced = problems d := by
  rw [problems, problems, methodProblems_silenced]
  rfl

theorem tableOf_silenced {α : Type} {read read' : TypeDecl → Option α}
    (same : ∀ d, read' d.silenced = read d) (ds : List TypeDecl) :
    tableOf read' (ds.map .silenced) = tableOf read ds := by
  rw [tableOf, tableOf, List.foldl_map]
  simp only [same, TypeDecl.symbol_silenced]

/-! ### Unions -/

theorem headerDecls_silenced :
    headerDecls host.silenced = (headerDecls host).map (Prod.map .silenced id) := by
  rw [headerDecls, headerDecls, Host.declarations_silenced, List.filterMap_map,
    List.map_filterMap]
  congr 1
  funext d
  rw [Function.comp_apply, optionsOf?_silenced, Option.map_map]
  rfl

theorem variantDecls_silenced :
    variantDecls host.silenced = (variantDecls host).map (Prod.map .silenced id) := by
  rw [variantDecls, variantDecls, Host.declarations_silenced, List.filterMap_map,
    List.map_filterMap]
  congr 1
  funext d
  rw [Function.comp_apply, optionsOf?_silenced, Option.map_map]
  rfl

theorem headerField?_silenced (d : TypeDecl) :
    headerField? host.silenced d.silenced = headerField? host d := by
  rw [headerField?, headerField?, Host.instanceFields_silenced, headerDecls_silenced,
    TypeDecl.selfType_silenced]
  simp only [List.any_map]
  rfl

theorem dispatchOf?_silenced (d : TypeDecl) (options : UnionHeaderOptions) :
    dispatchOf? host.silenced d.silenced options = dispatchOf? host d options := by
  rw [dispatchOf?, dispatchOf?, Host.resolve?_silenced, Host.declarations_silenced,
    List.find?_map, Option.map_map]
  rfl

theorem dispatchOfSymbol?_silenced (s : Symbol) :
    dispatchOfSymbol? host.silenced s = dispatchOfSymbol? host s := by
  rw [dispatchOfSymbol?, dispatchOfSymbol?, headerDecls_silenced, List.find?_map]
  refine (Option.bind_map ..).trans ?_
  refine Option.bind_congr fun pair _ => ?_
  exact dispatchOf?_silenced host pair.1 pair.2

theorem parentOf?_silenced (d : TypeDecl) (options : UnionHeaderOptions) :
    parentOf? host.silenced d.silenced options = parentOf? host d options := by
  rw [parentOf?, parentOf?, headerField?_silenced, dispatchOf?_silenced, Host.implements_silenced]
  simp only [dispatchOfSymbol?_silenced]

theorem unionHeaderTable_silenced : unionHeaderTable host.silenced = unionHeaderTable host := by
  rw [unionHeaderTable_eq_tableOf, unionHeaderTable_eq_tableOf, Host.declarations_silenced]
  have same (d : TypeDecl) : headerOf? host.silenced d.silenced = headerOf? host d := by
    simp only [headerOf?, optionsOf?_silenced, dispatchOf?_silenced, parentOf?_silenced,
      TypeDecl.declaresMember_silenced]
  exact tableOf_silenced same host.declarations

theorem variantOf?_silenced (d : TypeDecl) (options : UnionOptions) :
    variantOf? host.silenced d.silenced options = variantOf? host d options := by
  rw [variantOf?, variantOf?, headerField?_silenced, Host.estimateSize_silenced,
    TypeDecl.memberNames_silenced]
  rfl

theorem familyTable_silenced (headers : SymbolTable UnionHeader) :
    familyTable host.silenced headers = familyTable host headers := by
  rw [familyTable, familyTable, variantsByRoot, variantsByRoot, variantDecls_silenced,
    List.filterMap_map]
  congr 5
  funext pair
  exact variantOf?_silenced host pair.1 pair.2

theorem orphans_silenced : orphans host.silenced = orphans host := by
  rw [orphans, orphans, variantDecls_silenced, List.filter_map, List.foldr_map]
  have astray (pair : TypeDecl × UnionOptions) :
      (variantOf? host.silenced pair.1.silenced pair.2).isNone
        = (variantOf? host pair.1 pair.2).isNone := by
    rw [variantOf?_silenced]
  exact congrArg _ (List.filter_congr fun pair _ => astray pair)

/-- The index is read off declarations and not off statements. -/
theorem ofHost_silenced : ofHost host.silenced = ofHost host := by
  have tables {α : Type} (read : TypeDecl → Option α) (same : ∀ d, read d.silenced = read d) :
      tableOf read host.silenced.declarations = tableOf read host.declarations :=
    tableOf_silenced same host.declarations
  have injectors := tables (fun d => if (injectMethods d).isEmpty then none
    else some (injectMethods d)) fun d => by rw [injectMethods_silenced]
  have reports : host.silenced.declarations.flatMap problems
      = host.declarations.flatMap problems := by
    rw [Host.declarations_silenced, List.flatMap_map]
    simp only [problems_silenced]
  have assembly : host.silenced.model.assemblyAttributes = host.model.assemblyAttributes := rfl
  simp only [ofHost, unionHeaderTable_silenced, familyTable_silenced, orphans_silenced, injectors,
    reports, assembly]
  rw [tables _ fun _ => rfl, tables _ fun _ => rfl, tables _ fun _ => rfl]

end Marksmith.MarkerIndex
