import MetaCache.Config.Toml
import MetaCache.Script.Steps.Classes
import MetaCache.Script.Steps.Extensions
import MetaCache.Script.Steps.Slots
import MetaCache.Script.Steps.Structures
import MetaCache.Script.Steps.Values
/-!
# Steps

* `Step.run`: what a step does and answers. The host through which it reaches host code is a
  parameter, and so are the arguments of the host code that it belongs to.
* `startCache`: the step that replaces the cache.
-/

namespace MetaCache.Script

/-- The settings that an expression for them gives. -/
def ConfigExpr.resolve : ConfigExpr → Except Config.Refusal Config
  | settings c => .ok c
  | toml text => Config.parse text

/-- A new cache. -/
def newCacheOf (config : Config) (classifier : Option (List (String × ContainerKind))) : Cache where
  config := config
  classifier := (classifier.map Classifier.byName).getD .never

/-- Starts a new cache, which takes over when the running operation has ended. -/
def startCache (config : ConfigExpr) (classifier : Option (List (String × ContainerKind))) :
    Action Answer := do
  match config.resolve with
  | .error r => return .badConfig r.message?
  | .ok c =>
    modify fun w => { w with session := { w.session with successor := newCacheOf c classifier } }
    return .config c

/-- Runs one step. -/
def Step.run (host : Host) (args : List Value) : Step → Action Answer
  | assign name value => Script.assign args name value
  | drop var => dropVariable var
  | inspect value => withValue args value fun v => return .inspection (← look (·.inspect v))
  | equal a b => compareValues args a b
  | counts var => countsOf var
  | pointsTo weak target => Script.pointsTo args weak target
  | downgrade var target => Script.downgrade var target
  | dump value depth => withValue args value fun v => return .dump (← look (·.dump depth v))
  | debug var => textsOf var
  | same a b => areSame a b
  | call code arguments target => callValue host args code arguments target
  | produce kind target => Script.produce kind target
  | key origin name target => makeKey args origin name target
  | shareKey var target => Script.shareKey var target
  | compareKeys a b => Script.compareKeys a b
  | internMany stem first count keep => Script.internMany stem first count keep
  | dropMany stem first count => Script.dropMany stem first count
  | purge => Script.purge
  | defineClass name attributes target => Script.defineClass args name attributes target
  | pushAttribute cls attr => Script.pushAttribute args cls attr
  | setAttributes cls attributes => Script.setAttributes args cls attributes
  | bumpClass cls => Script.bumpClass args cls
  | bump name => Script.bump name
  | removeClass name => Script.removeClass name
  | resolveClass name => Script.resolveClass host name
  | classGeneration cls => Script.classGeneration host args cls
  | derivedFrom value className => Script.derivedFrom host args value className
  | defineMethod name routine => Script.defineMethod name routine
  | callMethod invocant method => callMethodOf host args invocant method
  | setMethod target method behavior => Script.setMethod args target method behavior
  | descriptor attr target => compileDescriptor host args attr target
  | descriptorFor attr cls target => lookUpDescriptor host args attr cls target
  | descriptorInfo var => askDescriptor var
  | initialValue d inst target => askInitialValue host args d inst target
  | shadow inst target => compileShadow host args inst target
  | shadowFor inst target => lookUpShadow host args inst target
  | newShadow name cls generation target => makeShadow args name cls generation target
  | append target d => appendDescriptor target d
  | shadowInfo var => askShadow var
  | find var name => search var name
  | findInitArg var name => searchInitArg var name
  | invalidate target => invalidateAt args target
  | extension target => askExtension args target
  | attachTag target tag generation governor name =>
    attach args target (newTag tag) generation governor name
  | attachShared target var generation governor name =>
    attach args target (sharedIn var) generation governor name
  | detach target name => Script.detach args target name
  | record var => askRecord var
  | createStorage target => Script.createStorage target
  | storage which => describeStorage which
  | hasSlot inst slot _ => askSlot args inst slot
  | getSlot inst slot target _ => readSlot args inst slot target
  | setSlot inst slot value target _ => writeSlot args inst slot value target
  | deleteSlot inst slot target _ => removeSlot args inst slot target
  | weakenSlot inst slot which => Script.weakenSlot args inst slot which
  | newCache settings classifier => startCache settings classifier
  | config => do
    let c := (← get).cache.config
    return .configText c c.shown
  | stats => return .text (← get).cache.stats.shown

end MetaCache.Script
