import ReactMigration.Target.Artifact

/-!
Shared modules that generated code relies on.  Each is written once for a run, however many modules
use it; none comes from a source unit.
-/

namespace ReactMigration.Support

open ReactMigration.Text

/-- The text of the module that joins class names. -/
def classNamesText : String := unlines [
  "export type ClassValue = string | null | undefined | false | Record<string, unknown> | ClassValue[];",
  "",
  "export function classNames(...values: ClassValue[]): string \x7b",
  "  const classes: string[] = [];",
  "  for (const value of values) \x7b",
  "    if (!value) continue;",
  "    if (typeof value === 'string') \x7b",
  "      classes.push(...value.split(/\\s+/).filter(Boolean));",
  "    \x7d else if (Array.isArray(value)) \x7b",
  "      const nested = classNames(...value);",
  "      if (nested) classes.push(nested);",
  "    \x7d else \x7b",
  "      for (const [name, enabled] of Object.entries(value)) \x7b",
  "        if (enabled) classes.push(name);",
  "      \x7d",
  "    \x7d",
  "  \x7d",
  "  return classes.join(' ');",
  "\x7d",
  ""]

/-- The text of the module of built-in pipes. -/
def pipesText : String := unlines [
  "export function uppercase(value: string | null | undefined): string \x7b",
  "  return value == null ? '' : String(value).toUpperCase();",
  "\x7d",
  "",
  "export function lowercase(value: string | null | undefined): string \x7b",
  "  return value == null ? '' : String(value).toLowerCase();",
  "\x7d",
  "",
  "export function titlecase(value: string | null | undefined): string \x7b",
  "  return value == null ? '' : String(value).replace(/\\w\\S*/g, (word) => word[0].toUpperCase() + word.slice(1).toLowerCase());",
  "\x7d",
  "",
  "export function json(value: unknown): string \x7b",
  "  return JSON.stringify(value, null, 2);",
  "\x7d",
  "",
  "export function slice<T>(value: T[] | string | null | undefined, start: number, end?: number): T[] | string \x7b",
  "  return value == null ? [] : value.slice(start, end);",
  "\x7d",
  "",
  "export function formatDate(value: Date | string | number | null | undefined, format: string = 'mediumDate', locale?: string): string \x7b",
  "  if (value == null || value === '') return '';",
  "  const date = value instanceof Date ? value : new Date(value);",
  "  const styles: Record<string, Intl.DateTimeFormatOptions> = \x7b",
  "    short: \x7b dateStyle: 'short', timeStyle: 'short' \x7d,",
  "    medium: \x7b dateStyle: 'medium', timeStyle: 'medium' \x7d,",
  "    long: \x7b dateStyle: 'long', timeStyle: 'long' \x7d,",
  "    full: \x7b dateStyle: 'full', timeStyle: 'full' \x7d,",
  "    shortDate: \x7b dateStyle: 'short' \x7d,",
  "    mediumDate: \x7b dateStyle: 'medium' \x7d,",
  "    longDate: \x7b dateStyle: 'long' \x7d,",
  "    fullDate: \x7b dateStyle: 'full' \x7d,",
  "    shortTime: \x7b timeStyle: 'short' \x7d,",
  "    mediumTime: \x7b timeStyle: 'medium' \x7d,",
  "  \x7d;",
  "  return new Intl.DateTimeFormat(locale, styles[format] ?? styles.mediumDate).format(date);",
  "\x7d",
  "",
  "export function formatCurrency(value: number | null | undefined, currency: string = 'USD', display: string = 'symbol', digits?: string, locale?: string): string \x7b",
  "  if (value == null) return '';",
  "  const [minimumFractionDigits, maximumFractionDigits] = parseDigits(digits);",
  "  return new Intl.NumberFormat(locale, \x7b",
  "    style: 'currency',",
  "    currency,",
  "    currencyDisplay: display === 'code' ? 'code' : 'symbol',",
  "    minimumFractionDigits,",
  "    maximumFractionDigits,",
  "  \x7d).format(value);",
  "\x7d",
  "",
  "export function formatNumber(value: number | null | undefined, digits?: string, locale?: string): string \x7b",
  "  if (value == null) return '';",
  "  const [minimumFractionDigits, maximumFractionDigits] = parseDigits(digits);",
  "  return new Intl.NumberFormat(locale, \x7b minimumFractionDigits, maximumFractionDigits \x7d).format(value);",
  "\x7d",
  "",
  "export function formatPercent(value: number | null | undefined, digits?: string, locale?: string): string \x7b",
  "  if (value == null) return '';",
  "  const [minimumFractionDigits, maximumFractionDigits] = parseDigits(digits);",
  "  return new Intl.NumberFormat(locale, \x7b style: 'percent', minimumFractionDigits, maximumFractionDigits \x7d).format(value);",
  "\x7d",
  "",
  "export function keyvalue<V>(value: Record<string, V> | Map<string, V> | null | undefined): \x7b key: string; value: V \x7d[] \x7b",
  "  if (value == null) return [];",
  "  const entries = value instanceof Map ? Array.from(value.entries()) : Object.entries(value);",
  "  return entries",
  "    .map(([key, item]) => (\x7b key, value: item \x7d))",
  "    .sort((a, b) => (a.key < b.key ? -1 : a.key > b.key ? 1 : 0));",
  "\x7d",
  "",
  "function parseDigits(digits?: string): [number | undefined, number | undefined] \x7b",
  "  const match = /^(\\d+)\\.(\\d+)-(\\d+)$/.exec(digits ?? '');",
  "  if (!match) return [undefined, undefined];",
  "  return [Number(match[2]), Number(match[3])];",
  "\x7d",
  ""]

/-- The text of the hook that follows a stream or a promise. -/
def observableValueText : String := unlines [
  "import \x7b useEffect, useState \x7d from 'react';",
  "",
  "type Subscribable<T> = \x7b subscribe(next: (value: T) => void): \x7b unsubscribe(): void \x7d \x7d;",
  "",
  "export function useObservableValue<T>(source: Subscribable<T> | PromiseLike<T> | T | null | undefined): T | undefined \x7b",
  "  const [value, setValue] = useState<T | undefined>(undefined);",
  "",
  "  useEffect(() => \x7b",
  "    if (source && typeof (source as Subscribable<T>).subscribe === 'function') \x7b",
  "      const subscription = (source as Subscribable<T>).subscribe(setValue);",
  "      return () => subscription.unsubscribe();",
  "    \x7d",
  "    if (source && typeof (source as PromiseLike<T>).then === 'function') \x7b",
  "      let active = true;",
  "      (source as PromiseLike<T>).then((result) => \x7b",
  "        if (active) setValue(result);",
  "      \x7d);",
  "      return () => \x7b",
  "        active = false;",
  "      \x7d;",
  "    \x7d",
  "    setValue(source as T | undefined);",
  "    return undefined;",
  "  \x7d, [source]);",
  "",
  "  return value;",
  "\x7d",
  ""]

/-- The text of the hook that sends requests. -/
def httpClientText : String := unlines [
  "import \x7b useMemo \x7d from 'react';",
  "",
  "export interface HttpRequest<T> extends Promise<T> \x7b",
  "  subscribe(next?: (value: T) => void, error?: (reason: unknown) => void): \x7b unsubscribe(): void \x7d;",
  "\x7d",
  "",
  "export interface HttpOptions \x7b",
  "  headers?: Record<string, string>;",
  "  params?: Record<string, string | number | boolean>;",
  "\x7d",
  "",
  "function withParams(url: string, params?: HttpOptions['params']): string \x7b",
  "  if (!params) return url;",
  "  const query = new URLSearchParams();",
  "  for (const [key, value] of Object.entries(params)) \x7b",
  "    query.set(key, String(value));",
  "  \x7d",
  "  return \x60$\x7burl\x7d$\x7burl.includes('?') ? '&' : '?'\x7d$\x7bquery.toString()\x7d\x60;",
  "\x7d",
  "",
  "function request<T>(method: string, url: string, body?: unknown, options: HttpOptions = \x7b\x7d): HttpRequest<T> \x7b",
  "  const promise = fetch(withParams(url, options.params), \x7b",
  "    method,",
  "    headers: \x7b 'Content-Type': 'application/json', ...(options.headers ?? \x7b\x7d) \x7d,",
  "    body: body === undefined ? undefined : JSON.stringify(body),",
  "  \x7d).then(async (response) => \x7b",
  "    if (!response.ok) \x7b",
  "      throw new Error(\x60$\x7bmethod\x7d $\x7burl\x7d failed with status $\x7bresponse.status\x7d\x60);",
  "    \x7d",
  "    const text = await response.text();",
  "    return (text ? JSON.parse(text) : undefined) as T;",
  "  \x7d);",
  "  return Object.assign(promise, \x7b",
  "    subscribe(next?: (value: T) => void, error?: (reason: unknown) => void) \x7b",
  "      let active = true;",
  "      promise.then(",
  "        (value) => \x7b",
  "          if (active && next) next(value);",
  "        \x7d,",
  "        (reason) => \x7b",
  "          if (active && error) error(reason);",
  "        \x7d,",
  "      );",
  "      return \x7b",
  "        unsubscribe() \x7b",
  "          active = false;",
  "        \x7d,",
  "      \x7d;",
  "    \x7d,",
  "  \x7d);",
  "\x7d",
  "",
  "export function useHttpClient() \x7b",
  "  return useMemo(",
  "    () => (\x7b",
  "      get: <T = unknown>(url: string, options?: HttpOptions) => request<T>('GET', url, undefined, options),",
  "      delete: <T = unknown>(url: string, options?: HttpOptions) => request<T>('DELETE', url, undefined, options),",
  "      post: <T = unknown>(url: string, body?: unknown, options?: HttpOptions) => request<T>('POST', url, body, options),",
  "      put: <T = unknown>(url: string, body?: unknown, options?: HttpOptions) => request<T>('PUT', url, body, options),",
  "      patch: <T = unknown>(url: string, body?: unknown, options?: HttpOptions) => request<T>('PATCH', url, body, options),",
  "    \x7d),",
  "    [],",
  "  );",
  "\x7d",
  ""]

/-- Joins class names. -/
def classNames : ArtifactRef :=
  { category := .utils, name := "classNames" }

/-- The built-in pipes. -/
def pipes : ArtifactRef :=
  { category := .utils, name := "angularPipes" }

/-- Follows a stream or a promise. -/
def observableValue : ArtifactRef :=
  { category := .hooks, name := "useObservableValue" }

/-- Sends requests. -/
def httpClient : ArtifactRef :=
  { category := .hooks, name := "useHttpClient" }

/-- The shared modules. -/
def modules : List Artifact :=
  [.util { ref := classNames, name := "classNames", raw := some classNamesText, shared := true },
   .util { ref := pipes, name := "angularPipes", raw := some pipesText, shared := true },
   .hook { ref := observableValue, name := "useObservableValue", raw := some observableValueText
           shared := true },
   .hook { ref := httpClient, name := "useHttpClient", raw := some httpClientText, shared := true }]

/-- The shared module that a reference names. -/
def find? (ref : ArtifactRef) : Option Artifact :=
  modules.find? (·.ref == ref)

/-- The shared modules that imports refer to, each once, by first use. -/
def importedBy (specs : List ImportSpec) : List ArtifactRef :=
  ((specs.filterMap (·.target)).filter fun ref => (find? ref).isSome).eraseDups

end ReactMigration.Support
