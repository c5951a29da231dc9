import ReactMigration.Naming
import ReactMigration.Table

/-!
What the source framework provides and what stands for it in generated code: lifecycle methods,
events, keys, attributes, pipes, directives and injectable classes.
-/

namespace ReactMigration.Framework

open ReactMigration.Text

/-- Lifecycle methods. -/
def lifecycle : List String :=
  ["ngOnInit", "ngOnDestroy", "ngOnChanges", "ngAfterViewInit", "ngAfterContentInit", "ngDoCheck",
   "ngAfterViewChecked", "ngAfterContentChecked"]

/-- Events whose prop is not the capitalised event name. -/
def events : Table String :=
  [("click", "onClick"), ("dblclick", "onDoubleClick"), ("change", "onChange"),
   ("input", "onInput"), ("submit", "onSubmit"), ("focus", "onFocus"), ("blur", "onBlur"),
   ("keydown", "onKeyDown"), ("keyup", "onKeyUp"), ("keypress", "onKeyPress"),
   ("mousedown", "onMouseDown"), ("mouseup", "onMouseUp"), ("mouseenter", "onMouseEnter"),
   ("mouseleave", "onMouseLeave"), ("mouseover", "onMouseOver"), ("mouseout", "onMouseOut"),
   ("mousemove", "onMouseMove"), ("contextmenu", "onContextMenu"), ("scroll", "onScroll"),
   ("wheel", "onWheel"), ("dragstart", "onDragStart"), ("dragend", "onDragEnd"),
   ("dragover", "onDragOver"), ("drop", "onDrop"), ("touchstart", "onTouchStart"),
   ("touchend", "onTouchEnd")]

/-- Keys of keyed events. -/
def keys : Table String :=
  [("enter", "Enter"), ("escape", "Escape"), ("esc", "Escape"), ("space", " "), ("tab", "Tab"),
   ("backspace", "Backspace"), ("delete", "Delete"), ("arrowup", "ArrowUp"),
   ("arrowdown", "ArrowDown"), ("arrowleft", "ArrowLeft"), ("arrowright", "ArrowRight")]

/-- Attributes that have another name in generated markup. -/
def attributes : Table String :=
  [("class", "className"), ("for", "htmlFor"), ("tabindex", "tabIndex"), ("readonly", "readOnly"),
   ("maxlength", "maxLength"), ("minlength", "minLength"), ("colspan", "colSpan"),
   ("rowspan", "rowSpan"), ("contenteditable", "contentEditable"),
   ("autocomplete", "autoComplete"), ("autofocus", "autoFocus"), ("novalidate", "noValidate"),
   ("crossorigin", "crossOrigin"), ("enctype", "encType"), ("accesskey", "accessKey"),
   ("srcset", "srcSet"), ("innerHTML", "dangerouslySetInnerHTML")]

/-- Built-in pipes and the functions that stand for them. -/
def pipes : Table String :=
  [("uppercase", "uppercase"), ("lowercase", "lowercase"), ("titlecase", "titlecase"),
   ("json", "json"), ("slice", "slice"), ("date", "formatDate"), ("currency", "formatCurrency"),
   ("number", "formatNumber"), ("percent", "formatPercent"), ("keyvalue", "keyvalue")]

/-- The pipe that waits for a value. -/
def asyncPipe : String := "async"

/-- Directives that the template rules handle. -/
def directives : List String :=
  ["ngIf", "ngFor", "ngForOf", "ngSwitch", "ngSwitchCase", "ngSwitchDefault", "ngClass", "ngStyle",
   "ngModel", "ngTemplateOutlet", "routerLink", "routerLinkActive"]

/-- Elements that the framework itself provides. -/
def elements : List String :=
  ["router-outlet", "ng-container", "ng-template", "ng-content"]

/-- Injectable classes and the hook that replaces each, if any. -/
def providers : Table (Option String) :=
  [("Router", some "useNavigate"), ("ActivatedRoute", some "useParams"),
   ("HttpClient", some "useHttpClient"), ("ElementRef", some "useRef"), ("Renderer2", none),
   ("ChangeDetectorRef", none), ("NgZone", none), ("TemplateRef", none),
   ("ViewContainerRef", none), ("KeyValueDiffers", none), ("IterableDiffers", none),
   ("FormBuilder", none), ("DomSanitizer", none), ("Title", none)]

/-- Injectable classes without a replacement. -/
def unsupportedProviders : List String :=
  ["FormBuilder", "NgZone", "DomSanitizer", "Title"]

/-- Injectable classes that compare inputs by hand. -/
def differs : List String :=
  ["KeyValueDiffers", "IterableDiffers"]

/-- The prop of an event. -/
def eventProp (event : String) : String :=
  match events.get? event with
  | some prop => prop
  | none =>
      "on" ++ upperFirst (if event.toList.contains '-' then Naming.pascalCase event else event)

/-- The value that a keyboard event has for a key. -/
def keyValue (key : String) : String :=
  (keys.get? (toLower key)).getD (upperFirst key)

/-- The name of an attribute in generated markup. -/
def attributeName (name : String) : String :=
  (attributes.get? name).getD name

/-- The hook that replaces an injectable class. -/
def providerHook (typeName : String) : Option String :=
  (providers.get? typeName).getD none

/-- Whether a type is provided by the framework itself. -/
def isProvider (typeName : String) : Bool :=
  providers.has typeName

/-- Whether a pipe is provided by the framework itself. -/
def isPipe (name : String) : Bool :=
  pipes.has name || name == asyncPipe

end ReactMigration.Framework
