import ClassScript.Unicode.Value

/-!
General categories and ages, as data: every character is in one category, or unassigned, and it was
assigned in one edition.
-/

namespace ClassScript.Unicode

/-- The categories that characters are assigned to. -/
def categories : List Value := [
  ⟨"Close_Punctuation", ["pe"],
    String.join [
      "BpaBzaBfaFPdabaCUoaDRdaCdapaYkabaBeaBPuababababababaDcaBgababababaPoababababababababababaCm",
      "abaBhaBOvabababaBsabababaQmababababadabababacbCZRqaIjaBdabababababababadarababaGoaBzaBfacac",
      "a"]⟩,
  ⟨"Connector_Punctuation", ["pc"], "DraMBvbtaDGAobycJfa"⟩,
  ⟨"Control", ["cc", "cntrl"], "aBfDrBg"⟩,
  ⟨"Currency_Symbol", ["sc"],
    "BkaEvdBWjaEtaTebTebhaJlaKdaWjaDQpaDIiBgBZHvaBGMlaEeaFyaIlbdbMCsdCVXeaDRka"⟩,
  ⟨"Dash_Punctuation", ["pd"], "BtaCAuaBzaFKjaBNpaDBdfFHxacaBfbeaBcaReataEhaCZWabBlakaGnaFLoaMga"⟩,
  ⟨"Decimal_Number", ["digit", "nd"],
    String.join [
      "BwjCIojFejHqjPwjEojEojEojEojEojEojEojEojEojDsjEojCsjKsjCsjCTqjBmjLojEyjGkjgjHajDijFejgjCAEo",
      "jBAcjBmjHqjwjDijPqjBFMcjCCkjDFyjgjBEqjEyjCijFojKsjNejEojOkjDyjgtCyjQgjDyjZmjDijJmjCsjQgjYYg",
      "jDMcjDijFejUojBKDyjECqBxDNcjQgjTijJnjBGvjHBaj"]⟩,
  ⟨"Enclosing_Mark", ["me"], "BSqbIKqaCIgdbcBYOxc"⟩,
  ⟨"Final_Punctuation", ["pf"], "HfaLWvadaBcaFFsabaeacapada"⟩,
  ⟨"Format", ["cf"], "GraCAkfwaHkaBxaOubDcaFTjaDAqeBaeBxebjDGHjaJpcGIzapaNKkpBZQudHWxhBTKZmaBeDr"⟩,
  ⟨"Initial_Punctuation", ["pi"], "GpaLXkacbcazaFFsabaeacapada"⟩,
  ⟨"Letter_Number", ["nl"], "IRucDYtBicdFMsaziocBSYljBIFgCaRsaiaFeeMEsEg"⟩,
  ⟨"Line_Separator", ["zl"], "MEqa"⟩,
  ⟨"Lowercase_Letter", ["ll"],
    String.join [
      "DtzCgaBpxbhbabababababababababababababababababababababababababababbbabababababababbbabababa",
      "bababababababababababababababababababacababccabacadbeacadccacababacabbbacadabacbccgacacabab",
      "ababababababbbababababababababbcabadabababababababababababababababababababababababababababa",
      "babgcacbbaeababababCqbBaHlabadadcsaBbBibbdcbabababababababababababebacacbBzBvbababababababa",
      "babababababababababajababababababababababababababababababababababababababacababababababbbab",
      "abababababababababababababababababababababababababababababababababababababababababababababa",
      "baBwBoEHbBqccBDgfDFuibaEnBrClmbBhDyabababababababababababababababababababababababababababab",
      "abababababababababababababababababababababababababababababababababababababababababababababa",
      "bibabababababababababababababababababababababababababababababababababababababababababababab",
      "ababababiifkhihifkhihinchihihiebbgadcbbidcbihkcbbKoadbdaBbaeaeacbideaCbaEBbBvbadbbababaeabb",
      "bffabababababababababababababababababababababababababababababababababababababababababababab",
      "abababababbhabaeamBlbafaBTWdababababababababababababababababababababababatababababababababa",
      "bababababaFfababababababcbabababababababababababababababababababababababababababababababhba",
      "bacababababaeabacabcbabababababababababafafabababababababaeabacadabababababaBaadaBFpBqfihDb",
      "BEAigmeBOzzBVhBnFgBjFzkbobgbbCRbByEvvEGoBfBGJwBfBMMkzBagbrBazBadbabgbkBazBazBazBazBazBazBaz",
      "BazBaBbBcybfBaybfBaybfBaybfBaybfbaCSyjbtgfDUdBh"]⟩,
  ⟨"Math_Symbol", ["sm"],
    String.join [
      "BraqcCjabaBtaeaBlaBfaBDmaUhcJYhanaBncncFjaBnegaCqefbeacacahaBfbcabaBfKhBgbDmaBeyBofSbajaCch",
      "EhaMyecBekpJwFawCkeBfcJxBwucfDASqaBFsabcGiaqcCjabaFbagdFEfbCYEzazaBfazaBfazaBfazaBfazaIUeb"]⟩,
  ⟨"Modifier_Letter", ["lm"],
    String.join [
      "BAmreloehabaFdafaSkaIwaGibKjbeaBfajadaGeaGlaBVoaExaVtaCPmaEdaXnaRwfGsCknaBiBkBAnanaqmEMxbJh",
      "aHjaSbaBrefaDtbDpcBQBuaBWcfKkaEkaBcbEriDcaxaEbcdbSbawaFhaEeavbDzdjaBFViaBtbCZofbBpbiCCxaBga",
      "BJNsdTocBobVemCmbbaYGqdbgbbSGnCjHtgBKfaBRba"]⟩,
  ⟨"Modifier_Symbol", ["sk"],
    "DqabaCtagaeadaUbdmnfgbabqEnaobBXiaIUmabclcncncnbGHobBSVrwjbDzbBLoaobBEKkqBIhabaGgaDOLje"⟩,
  ⟨"Nonspacing_Mark", ["mn"],
    String.join [
      "BDoEhKpeKfBsbabbbbbaCukBwuqaDxgcfcbbdBjaBeBaDnkCgijaydbibcbeBrcChiBqxbBfCdabaeheadgkbBdaCga",
      "ediaubBaacbCfaebebccdaBebdalbCfaeebbeaubwfbaCgacabdiahblbBeaCjamaByadaCdabcfcbdhblbBdaCgaca",
      "gafbubBcbCfbediaubBdaCuahcbaDmacgmhDuacilgCvbBbababaCdnbebbfkbBjjaDydbfbbcbzbecqdnacbgapaBB",
      "bcBKkcBdbBebBebCmbbgiackjaBtcbaEnbBiaEocebjagcIlbcaCgabgbabachgjcaBwnbpBxdBwabebafaBoimbBgd",
      "cbbcCeabbdabcCghcbFwcbmbgeagadbHqClBBsmeadlEOccFlaDsBfVidEdbBSQeaejBgbDcbKmadaeazbfaFvbBarn",
      "aBmhzkBucBwacdcbBnaCpfcbcbmaiaBvaBzabccbfbbaBqbiaJeacaeaBDZsaBCjpqpBLlaIsaFteCMgcbbfdBoceaG",
      "jbWbdCneMfbDbdCskBxdEtaCcoBpacbkcBxdcbhaCjcBkebhCkambCaikdcaDrccabbgacaGbadhvbCfbdaBlgdeCsf",
      "nababaobDhhccbaxaDgfbaebbbJedgbbbBbbDhhcabbEcabacfbaDxabacdbeJzibbJwbbaeaFodcbeaBgjBofcdiaj",
      "fccBumbbPqgbfbaDevcgbbbbEsfdabbbgbaCubdabaNjblbCaefabaxaHXtagoQYyldcDSaeChgBOiaCldDdaBDBkbG",
      "YzBtcwUycrhcgBedFscCYdCceBxiaoaweboCAigbqcgbbbeDwaGegOlaCjdTodJubBCigEfgBTCIvJf"]⟩,
  ⟨"Open_Punctuation", ["ps"],
    String.join [
      "BoaByaBfaFPeabaCUoaDPmadaBmaCdapaYkabaBeaBPuababababababaDcaBgababababaPoababababababababab",
      "abaCmabaBhaBOvabababazasabababaQmababababadabababacaCZRtaIhaBdabababababababadarababaGoaBya",
      "Bfadaca"]⟩,
  ⟨"Other_Letter", ["lo"],
    String.join [
      "GoapaJwaedIaaBFvBaedBtBfbjBjbbDubaybkccaqabBdBdDklayBgvvBqyhkfxbfrBoChCbdasahjqoehcbcvbgbad",
      "ddaqanbbcobkaifebcvbgbbbbbbBfdbatcqibcbvbgbbbedasapbxalhcbcvbgbbbedaBebbcparabfdcbddbbabbdb",
      "dcdlwaCahbcbwbpdaBaccacbBeaehbcbwbjbedaBfbbbpbribcbBocaqafcicyffrdxbibacgCgBvbbmfChbbabebxb",
      "abjbbjacexdBgaClhbBjBbeElBquaqfeddadbhcemmaEjMqbdcgbabdcBobdcBgbdcgbabdcobCebdcCoBlpEjXvcqb",
      "zfCwghhrnsorombcpBzBoaCpBibCahecBhbafCrkBeBxBdcelBrezCcwjCaGuBurhCcBdnbkBrBaBjBpckBdEjdbfbb",
      "daBPqdENvCdywjgbgbgbgbgbgbgbgVfaCbaeDhiabDleafBqbDprBfBwpTsJTnCmBFCebBRyCpBniKhepkbCoaBxCrG",
      "naDzadgbcbdbwBdBzoBxCkfdabblBbkwzBchBuBtecikebBoxcbhupbfdadBxbadbcecabaybdkhaofcfcfjgbgFpBi",
      "BdQNrmweBwMNcObcEbCpabjbmbebabbbbbEdBhNysClcCbBolEmebFeEbjbBscBedfcfcfccBjlbzbsbbbocnBiEsOz",
      "BcdBwBvBfntbhgBlkBdcBjehEyCzDuBniBzDoBzmLyjvkhFwfcabBrbbdacwkwjBeCnsbbkvkzCsCdgbCmapdbcbBcB",
      "qBcdBcBjhbBbBbCbkvksnrEgCuHbBjBmdbaLsBpgbqcChBckaivBqrBuuBbwmCaCfbcanBsBgyBaBjBdacaiBidamBv",
      "odvabaBjrbytbClgbabdbobjhBuBmhcbcvbgbbbedasameBejbacabBlbazabaBsCasducBeBvubbaHcBuBpdBkBvua",
      "ChBqnaCtBaBlgHdBrIdhcachbbbxpabaDqhcBmqabaBcakBnhavalBttasCuHrBgBfibBkraBxBdEigbbbBlvazfbbb",
      "BfoaMpspabmbBhEuaDbBJlIwHnDXkDspBPfrfzFXqfWkKDdBdCPuVwhBerDarBdsBvBzufsQtBnPpCwfaGtJBziBVpB",
      "pjNGhLepaBdccaodiPfDKuEcfmdihjNBcaThBsBhaMjBdsBrSqBaIvBdcaTbgbdbbbobHoBZndbBabbbacabjbdbaba",
      "gaeabababcbbbacabababababbbacdbgbdbdbabjbqfcbebqGOaCLFbBgGDtgIncINpoLBkpXxDQwUvCFyHHyfGFf"]⟩,
  ⟨"Other_Number", ["no"],
    String.join [
      "GwbfaccDMrfOmfEqcFdgIjgriQrjBPltBRvjSmaCMvadfgjHqpBpaBByChDavYgBdCBhaBTcdFijBehboBgjBnoBSMi",
      "fBHQnBsCndrbNdBaBkdBZghzgBniCxewfGebcpcBtCmiCabBecCxeEahyhBpgMsfNoBeGcjBqdEigFetOptBZxbQoiB",
      "HnsBGtuBCPqgBEswBLYftmtEeyIBuiBJtCgbcbdCyBsboBLam"]⟩,
  ⟨"Other_Punctuation", ["po"],
    String.join [
      "BhcbccababbkbdbBbaCqafaobhaBBaaiaRyfBpaCcacacaBsbubbbnabcCwdDyaBrnIzcCcoBfaKbbkaFkaEqaEraPa",
      "amaOdaDmakbGmobaEiaCweebEhfGpaXoiBDtaEucCtbGbcbcBlfbdMbbIibEygbfGebkgBccEudCheCkbCmhlaBGcbi",
      "hiicdccdkbabjEUcdbbEiaFnbeccacibbbacbkebjcdbabmccQmcCfaHhaBRYgbKjcDvakaElfOqdDibBocbaBxbBva",
      "DtmqbEudEwbqbJpaBFCugcawaubcddcbdhcgabbFtcbccababbkbdbBbaBkacbPucZsaBwaPyaBCpaHraBfaKmiBmaE",
      "igCogDldBKqeBsdHhgEfbbdEwdBwbDbdeanabcDkfEdaLmbbbEkekbbaEaaJqwEbcBcmCyaFacJsaKecFzaDohDfcbe",
      "DpjIhaDreBqbYvbCwmGtaBRseEJcbWDvbFdaCneiaVgcLjdMpaBDBoaLIleEItaBHeb"]⟩,
  ⟨"Other_Symbol", ["so"],
    String.join [
      "GkacaeabaBLpaKgbExbHyakatbJnaTvaOjaFafbaFcaHzaBpaPbcpabccfuababaFdhbfbbfdHpbBCyjBBvaBBuaGbB",
      "hNpjjiCChbbdbbkabbgfbababaealboabbbaCgbjecdbbbbbgbBecbbabBeKihetcgcDcbBdzBngCtwkDdCzwHabibC",
      "biEgbJnBsBrCmJvTsBvvbgBmcBfbEaIvfNtbBuzbDkmIfBapeanbmavbgbMybejBgBljaqBelBdiapBfkBmpMhJToCl",
      "BGUiCcBHhdkbbaWbcBFJapExaBtcSqadaebnbMbiCfqccbmdaBvBsCLubWtaESsaDGnheqBCNidfaBEUwaFVnJfqQtG",
      "aElCiJlkBmcChfcwbhBdeCivCndaHeDiBTxTrCddByhbnbbCOuaEHwaEzaBBtBreDvmocobobBkxGeCeBcnBreihbof",
      "FyJqfBBzeqdmdEoeDqgleapleCdijgBniBdclebCkNbmncmdjfCdhockgihFqbDn"]⟩,
  ⟨"Paragraph_Separator", ["zp"], "MEra"⟩,
  ⟨"Private_Use", ["co"], "DGVoJMdCAHXoDSYncDSYn"⟩,
  ⟨"Space_Separator", ["zs"], "BgaExaIHjaDPnkBkaBvaFXwa"⟩,
  ⟨"Spacing_Mark", ["mc"],
    String.join [
      "DKtaCdaccidbbBybCgcgbcbkaBraCgcCoaCgciabbCbbCgabagbcbkaDybbbdcbckaBpcCjdCjbCgabecbbbjbBcaob",
      "CgcfcbckaBqbCxcghsbMsbClaGpbeagacbzbkccgvbcfcakcCLsaBeaEzahhbbNidccebbfIqbCgabajabbifFpaBwa",
      "fabebbCjaBeaebcaCiaccbadbBwhibGpavaHHebBTLbbcaDkbBypFmbBvaBwbebccEgbcbyaBtabaEfacbfaJdbbbbb",
      "baBLXjabaExaBtcebElaybChaBwcjbnaDpcdbbaGocBfbCgbbdcbccjakbDgchacabdbbbaDxcibdaEccgabdcaJdcg",
      "dcaEjcibbaEfabbgaDzabbeaKbcjaJnfbbeacabaFmcideaDgaBdbCkaPraoaEcahacaIfeebbaNmbmaBwbibbaYYyc",
      "FJgCcEabBKXnbgf"]⟩,
  ⟨"Titlecase_Letter", ["lt"], "RlacacaBmaLFhhihihmapaBva"⟩,
  ⟨"Uppercase_Letter", ["lu"],
    String.join [
      "CnzDxwbgBhabababababababababababababababababababababababababababacabababababababacababababa",
      "bababababababababababababababababababbbabadbbabbbccdbbbcdbbbbababbbacabbbcbabbdahacacacabab",
      "abababababacababababababababacacabcbabababababababababababababababababababababababababababa",
      "bahbbbcabdbabababaLdabadaiagabcbabbbqbiBjaccdabababababababababababafacabbcByBwabababababab",
      "ababababababababababajabababababababababababababababababababababababababababbbabababababaca",
      "bababababababababababababababababababababababababababababababababababababababababababababab",
      "abacBlEHdBlbafaBBuDhDGlagBqccMiabababababababababababababababababababababababababababababab",
      "ababababababababababababababababababababababababababababababababababababababababababababaja",
      "bababababababababababababababababababababababababababababababababababababababababababababab",
      "ababajhifkhihiflabababaihCudmdmdmeldKcaeadccccadegabababdcdkbfaCjaDZgBvBwabccabababdbacaicb",
      "abababababababababababababababababababababababababababababababababababababababababababababa",
      "bababaiabaeaBTYjababababababababababababababababababababababatabababababababababababababaFf",
      "ababababababadababababababababababababababababababababababababababababababakababbbabababaea",
      "bacabadababababababababababebebabababababababdbabbdafabababayaBHAhzBUzBnFgBjGakbobgbbCQcByG",
      "bvEGoBfBGJwBfBMMqzBazBazBaabbcacbcdbhBazBabbdchbgBbbbdbebadgBbzBazBazBazBazBazBeyBhyBhyBhyB",
      "hyBhaGNlBh"]⟩]

/-- The editions that have assigned characters, the first one first. -/
def ages : List Value := [
  ⟨"V1_1", ["1.1"],
    String.join [
      "aTheBdCeDkhBubjwCrBabsbeadafgbabtbBrbgdababababrnlbCnblbBojCacbcbdBbchcbCdBlcgbBmbaBmjbimBa",
      "fexaoadabzfsnncCtcebobBdcjTzcbCacrcedyqcbhcbcvbgbaddcabgcbccjaebbecuhacfebcvbgbbbbbbcabeebc",
      "cldbahomcbgbabcbvbgbbbecjbcbccapafjrcbhcbcvbgbbcdchdbccibebbcekrbbfdcbddbbabbdbdcdhbceedcbd",
      "japlocbhbcbwbjbeegbcbdhbjbejsbbhbcbwbjbeegbcbdhbhabbejsbbhbcbwbpefccbdjaibejFpCfeBcBlbbacbb",
      "acagdbgbcbabacbbmbccebabfcjcbRiBlkBmeaeDlfCpfDdEOkFyfDlgvcfcBlcfchbabababBecCabobncfbsccbib",
      "BubwBjgdBarkBlrBeCeBaBvnDmvJhoabEqFdBkBbkvFivFtkDbqtgDhFpdbdcBbbBibabddabgcgoBedxbnDDhCdhab",
      "DfefcDpgBneDpbpDsBcdBjBcBbdBxpleBubEoeDucBeJWbBEXxYJqJXtIcgmegybebabbbbbEdBhOaqClcCbBolBkdm",
      "uejbsbdecbabFecabDpcDpdfcfcfccdgbgoc"]⟩,
  ⟨"V2_0", ["2.0"],
    String.join [
      "CCvqbmuaDMxCtbBghBaefbabudgbaFQnaUhaCATwQNrEIFybDSYobDSYobDSYobDSYobDSYobDSYobDSYobDSYobDSY",
      "obDSYobDSYobDSYobDSYoHLXh"]⟩,
  ⟨"V2_1", ["2.1"], "MJsaDGOta"⟩,
  ⟨"V3_0", ["3.0"],
    String.join [
      "TidBehcrEneBxakeDjitaEmadabababaBeamaCoamaBqbcdDobGaaHscDubfapaBqebnbBddBaCbBwCFhbbrdxbibac",
      "gdaefbabhscOjaBraxchabcbocaBwBhbebbbgddgzQggbCkbabdcgbabdcBmbabdcBebabdcgbabdcgbgbwbBebabdc",
      "gbBmbsgBbBjDgmYfjBcdDcFnDodjwobjgDjiBpCWbayfDrcBybDhbCuaDziKjaErabBdFibRphBhaDibPiJvCCezbDk",
      "mIfBalCicdaNpxWmJTdBFEgBSudrcpblbcbaBGScaBVvc"]⟩,
  ⟨"V3_1", ["3.1"],
    String.join [
      "BMybDQQcBfBXwBebdmBaGzBlcBlCZDqJlkBmdGxVaDgbCsbbcacbcdblbabdbbbCmbdchbgbBbbdbebadgbMzeLdeBx",
      "PDwCLEsBETdUvBPCQtaBeDr"]⟩,
  ⟨"V3_2", ["3.2"],
    String.join [
      "UyaLqatmEabBcaFrbCfbcbcbBxpNmbMjaDNhbCHjmbglwjtmmbcbbDIxageeahenaCkbBygDeoGmlJinEuaBeBzKytF",
      "vjDkhwbDmlcjIonDmBbepJwTrBZncDjbibDqaJgpDdoDdoBRDibqamadaBGJaCgBJdadpCbbBsaJbb"]⟩,
  ⟨"V4_0", ["4.0"],
    String.join [
      "UzascEpbClqDchfcFveTwdjiCmcFtbpaBtcBdcQuaHcaCpabaFgaDgcnaCpaChaEzhHlbEFnasjKcBcdleleadBpceE",
      "dBfBDoEdBCpbIwaZjbLqaKqbEmhobBRanCRnbBxaBrbDadGldDvbBfaJToClCOQvaCvbQxlbzbsbbbocnBiEsfceBsd",
      "iWeBdbaFebBmDbcjBGwfcabBrbbdacaCYUiDiNyaBTKDaJf"]⟩,
  ⟨"V4_1", ["4.1"],
    String.join [
      "VvkKseGddJmbGoaBicCpasaCgfJhBdUhaDcaStaBvaBMnbLjbbaKgaClaClaBnaBfaBfaBfapaBnaxbBfzCGcBpgzgj",
      "ebBgBbcbBGmDjZhbbgBxeBddCbaDcapaYukWaaDxbskfpKkgBGhfJcBubBuBhEcoBskCbjaqwjgbgbgbgbgbgbgbgBh",
      "xebBJupGsaBPItvCTowIzBrBFEaEbBFqjBFaCwUnBjenCIsdbbfhbcbBaeceiiiCXPvCrBRab"]⟩,
  ⟨"V5_0", ["5.0"],
    String.join [
      "WgnLncMzaBqfqdGkaTxCgOubbbBHibnbFIjCxeBsWlgBzbBCudDpbCbaXblBBmaKqdBGjgfdMemhdBULjdfbLaCdBKO",
      "mzfaIRgBHuFpDundCOGirBQub"]⟩,
  ⟨"V5_1", ["5.1"],
    String.join [
      "BHwdcbDjaHbaFkpIseleBgeLqrTdbIoaBjaHyaBdbEeaEeaBabibuhHhagaBdbmfdgSxbDtadcCzafacahcefBaCleb",
      "DBeaBBxBqdlCsCddodByMtBbGzdDmfNsaFjaDqaCbdBYaavjddKeaBfdBFfeeBodeKucbcefNqBfydcsBDkaGgtBPPo",
      "hBZoLnuBfcriBbFbecEcEgeEyCqjlBmDflaGeCcjncjcdBFSucBHplCaBtFaBcdBwCKdzfaCXSjaLRqBreDv"]⟩,
  ⟨"V5_2", ["5.2"],
    String.join [
      "BYqbBCcBtcoHlaCzagaBjbEyaCFpdHldHgeCqeDefTsaYgiVoCrGybBuaCrCkbBcckgjgnVaBiKgaBAucFvcCcaXiaB",
      "ArbBdcejbsbaexDjaBNheKsanbEdgMhaBOclBPLshBXkBvQaDjMajGkBbDwBcdCzbkebEyBbeCoyeIqBtcjQOkweBwN",
      "BbcFGcvbiHebMmBfEyCbdBccBafhEyCuUpBeTtCnLVqBPeCTNdkfBecalabacadadeiahazabbcakdcaEhapBhoiCQL",
      "jGDo"]⟩,
  ⟨"V6_0", ["6.0"],
    String.join [
      "BYsbJoaCkaSmBbcaIlbtagbBbeTmfQraqataWbdCvbBIobDEnBzidToaZohBcaBFjkBCcatabdBdaebBcaBjabaecjb",
      "CacyaoaobCDkaoaBPocBSEnbLnbbbojDcaBDufcfcfjgbgBEMtpHRiCzeBdBHEeVwBALbbYMgocncoboDcabkbabbbc",
      "bcfhbgbjgibacbbjebbjCxzbbBvivbGsBgpfbCrdtmBkbevqpCkbabGzbddCjsxFrebpbcbabababcbfcdbacdblekB",
      "wCrCgElCUQmIn"]⟩,
  ⟨"V6_1", ["6.1"],
    String.join [
      "CCtaEmaZrabkCdBaTdaBMrbStafaBvcEBbcmfJwhBrdECqabaBYqbBzafaCebHujBRAeaCNnhBjaJibwaCzbBCowBDZ",
      "zbFUuCdgbCRoyhjgCabnCiCuhjBTuCdijBHKoCqlBuqqBVWidbBabbbacabjbdbabagaeabababcbbbacababababab",
      "bbacdbgbdbdbabjbqfcbebqCabYibBLsdHgaqadabababadagbeabbea"]⟩,
  ⟨"V6_2", ["6.2"], "MKga"⟩,
  ⟨"V6_3", ["6.3"], "CIeaJYvd"⟩,
  ⟨"V7_0", ["7.0"],
    String.join [
      "BIlaQihDpbEoaZralfCyaEqahaYpaBzaCyaExaIujDKrhVcbPloVxbJdoBBhcBFqgBDtaBQickzcBfcBhdlbhXugBTO",
      "vfJmllccbCraSuBeEvdGuBvebBFIvgBHdbtaMhBbBjaBwBqOzBniBzlaFoLyjvkhJoCkiiRwBfBgBmelFhrhdmgBVja",
      "IaBmDiamagtlrbBqEkCgfjhcbhcbcvbgbbbecicbccjafgcgdeKhCtijGkCbcrCcCqljWkDemaRgCeDFiBpHulfaBAL",
      "fBebjebDsBdcfkCrkjbgbufsBEMaEcfmdihjchQKyHocpCZwaBgvvbUmljaCsawlBlafdflrgCtabaHaaebClbegBdr",
      "bBobDhCsbnBvCsjqmddFkDgBrleCdijgBniBd"]⟩,
  ⟨"V8_0", ["8.0"],
    String.join [
      "DHrbBuaUnaNoaKaaCMvacfEVoaHvbDYedBRWviCOuaJgaBifMmbXmdmDbBFFqbEBgsbbfeHgbcpcBtYqBynByhfBVdd",
      "oeGegbabdbobkDiaDbaYjtLezdoepERpaIwHnLQqWkCAWlkCHzZbpeboJHdcDabDbeBkhJvaCxeJjbFjaWdiDzeChaC",
      "UClINp"]⟩,
  ⟨"V9_0", ["9.0"],
    String.join [
      "DHuhwoBJpaHyaecbgxcFRziOgaCHbdDXcbBTZlaKsaBHQdbBEvBjeBjFAoaRhDlbabaTumCCxibBsbnkBcdBfcvbnBF",
      "MvaBfJBotBDaBGFlgbqcgbbbeDIzCwfjebDDbrFmaBFyaBpaLobBhcVafbhiaclbleoBmm"]⟩,
  ⟨"V10_0", ["10.0"],
    String.join [
      "DEmkPlbJsfTsaCgbFYwaJudBBhaBFzaCZaaYceBCmaBPXnuBLPicIQqCtiBzcwbeXhgbbbBrdabbbiijBFGpaYHkKyD",
      "dPfYAefBRpbBibTzltaihbbzasmBmfCewDCPdLBk"]⟩,
  ⟨"V11_0", ["11.0"],
    String.join [
      "CAyaBnaDyaUfcIdaLmaEpaPhaExaENraBOhBqccFRmcwyeoWpeBCiaBPYheCYhaibMmbBKVcbsaBAtBnijRmBniBpOh",
      "aEocTgaLeaBAxaIvChXlaBBefbbbBkbbbfhjLyyBEApDmJPieBCJutEwgJLwCpBScaCEzaIldOicBcecddabdyknjhb",
      "BkyDsn"]⟩,
  ⟨"V12_0", ["12.0"],
    String.join [
      "EStaUgacacabfeahahbcanaFKhaFPuaCbaWtaBTZmfceBJrbBMBgwBRkaXcaBCphcBtckGdbBZmBxnaHQuiWJkfeaBv",
      "iDmbJCwfPRccrdSAqBsdncjebOeCffaCJzaBKnCiBPeaCBgaBkaIvlLdcBvaBxajaBpfdbkfdhccBwDfBcdecfcnf"]⟩,
  ⟨"V12_1", ["12.1"], "TIda"⟩,
  ⟨"V13_0", ["13.0"],
    String.join [
      "DIcjZdaQoaEuaFAjbGJuaBAucBHoeKPijBFDgmCYsdBqbCbaBFvdBGQqaEWxBpbccbJuBbOpaFebZaafbBTmgcachbb",
      "bBdbbcljjCKkaBEJralbKFxSoBqiBLWucDpcCjaBYubBjbQtbDmaDxaebBqbgcBdaGmaodpshgjcngBpFqbCcBljCMS",
      "jgBHTqHHy"]⟩,
  ⟨"V14_0", ["14.0"],
    String.join [
      "CIfaWwBebbghvaskBHpaBgaExaDWhahajaJfaBAnnEvaBwbYlaBBhaEIoaBvaTfkBRAtcCYibobbabeycBFTdaOrpEx",
      "aBubCVgkbobgbbbkbobgbbRjfbBpbiCXxzIwfCyaCGsaFegBHppHWyDuWDxDabjBAEwdbgbbLcdLIbBtcwjElVdbEYv",
      "BeBHxBeBZdgbdbbboFQkcKmaPcaDeaGsbBsdkdicrcghigCNCpbGEvd"]⟩,
  ⟨"V15_0", ["15.0"],
    String.join [
      "EXnaSgaDTAkcBFzcDIcjBNaqbBodBbHXdajBcBVHkaBiaMRatERhfKbCjBhaBPwBpGUcaFvceeDlaZrcpbBkclcbaob",
      "kbmaobCTHoaBIWsGFf"]⟩,
  ⟨"V15_1", ["15.1"], "SEmdTbaKEIqXx"⟩,
  ⟨"V16_0", ["16.0"],
    String.join [
      "DGpaHCgbBvaKfbCWycFFebBSQvcmcBJOlBzCTwBldBcibLucCdaBSljbacabBlbjbacabdbjbbibBCvtBVwBhojBHga",
      "HYzFXqKZtCfEOkCfLYjaXWiJpgQtIToBqeaHCcjebRnafaBuahavacajaIrBk"]⟩]

end ClassScript.Unicode
